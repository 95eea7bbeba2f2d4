import ActorHub.ValueShape

/-!
# Slots

Entries of single and repeated types stand for a row of types, one for each value. Taking texts by the
entries is taking them one by one by such a row. A repeated entry takes as much as it can, which is
right because only the last entry varies: the number of values decides which row it is.
-/

namespace ActorHub

/-! ## Texts by types -/

namespace ValueType

variable {t : ValueType} {ts us : List ValueType} {texts rest : List String} {vs : List TypedValue}

@[simp] theorem takeEach_nil (texts : List String) : takeEach [] texts = some ([], texts) := rfl

theorem takeEach_cons_iff : takeEach (t :: ts) texts = some (vs, rest) ↔ ∃ text more v ws,
    texts = text :: more ∧ t.accept? text = some v ∧ takeEach ts more = some (ws, rest) ∧ vs = v :: ws := by
  constructor
  · intro h
    cases texts with
    | nil => cases h
    | cons text more =>
      cases hv : t.accept? text with
      | none => simp [takeEach, take, hv] at h
      | some v =>
        cases hws : takeEach ts more with
        | none => simp [takeEach, take, hv, hws] at h
        | some p =>
          simp only [takeEach, take, hv, hws, Option.map_some, Option.bind_eq_bind, Option.bind_some,
            Option.pure_def, Option.some.injEq, Prod.mk.injEq] at h
          exact ⟨text, more, v, p.1, rfl, hv, by rw [← h.2, hws], h.1.symm⟩
  · intro he
    obtain ⟨text, more, v, ws, rfl, hv, hws, rfl⟩ := he
    simp [takeEach, take, hv, hws]

theorem takeEach_append_iff : takeEach (ts ++ us) texts = some (vs, rest) ↔ ∃ vs₁ mid vs₂,
    takeEach ts texts = some (vs₁, mid) ∧ takeEach us mid = some (vs₂, rest) ∧ vs = vs₁ ++ vs₂ := by
  induction ts generalizing texts vs with
  | nil =>
    constructor
    · exact fun h => ⟨[], texts, vs, rfl, h, rfl⟩
    · intro he
      obtain ⟨vs₁, mid, vs₂, h₁, h₂, rfl⟩ := he
      cases h₁
      exact h₂
  | cons t ts ih =>
    rw [List.cons_append, takeEach_cons_iff]
    constructor
    · intro he
      obtain ⟨text, more, v, ws, rfl, hv, hws, rfl⟩ := he
      obtain ⟨vs₁, mid, vs₂, h₁, h₂, rfl⟩ := ih.mp hws
      exact ⟨v :: vs₁, mid, vs₂, takeEach_cons_iff.mpr ⟨text, more, v, vs₁, rfl, hv, h₁, rfl⟩,
        h₂, rfl⟩
    · intro he
      obtain ⟨vs₁, mid, vs₂, h₁, h₂, rfl⟩ := he
      obtain ⟨text, more, v, ws, rfl, hv, hws, rfl⟩ := takeEach_cons_iff.mp h₁
      exact ⟨text, more, v, ws ++ vs₂, rfl, hv, ih.mpr ⟨ws, mid, vs₂, hws, h₂, rfl⟩, rfl⟩

theorem takeExactly_eq (t : ValueType) (n : Nat) (texts : List String) :
    t.takeExactly n texts = takeEach (List.replicate n t) texts := by
  induction n generalizing texts with
  | zero => rfl
  | succ n ih =>
    cases texts with
    | nil => rfl
    | cons text more =>
      rw [List.replicate_succ, takeExactly, takeEach, take, ih]
      cases t.accept? text <;> rfl

theorem exists_takeEach_of_takeUpTo (t : ValueType) (bound : Option Nat) (texts : List String) :
    ∃ n, (∀ m ∈ bound, n ≤ m) ∧
      takeEach (List.replicate n t) texts = some (t.takeUpTo bound texts) := by
  induction texts generalizing bound with
  | nil => exact ⟨0, by simp, rfl⟩
  | cons text more ih =>
    by_cases hroom : hasRoom bound = true
    · cases hv : t.accept? text with
      | none =>
        rw [takeUpTo, if_pos hroom, hv]
        exact ⟨0, by simp, rfl⟩
      | some v =>
        obtain ⟨n, hn, h⟩ := ih (bound.map (· - 1))
        rw [takeUpTo, if_pos hroom, hv]
        refine ⟨n + 1, ?_, takeEach_cons_iff.mpr ⟨text, more, v, _, rfl, hv, h, rfl⟩⟩
        intro m hm
        have := hn (m - 1) (Option.mem_map_of_mem _ hm)
        rw [Option.mem_def.mp hm, hasRoom, bne_iff_ne] at hroom
        omega
    · rw [takeUpTo, if_neg hroom]
      exact ⟨0, by simp, rfl⟩

theorem takeUpTo_of_takeEach {n : Nat} {bound : Option Nat} (hn : ∀ m ∈ bound, n ≤ m)
    (hstop : bound = some n ∨ rest = [])
    (h : takeEach (List.replicate n t) texts = some (vs, rest)) :
    t.takeUpTo bound texts = (vs, rest) := by
  induction n generalizing bound texts vs with
  | zero =>
    obtain ⟨rfl, rfl⟩ : [] = vs ∧ texts = rest := by simpa using h
    rcases hstop with rfl | rfl
    · cases texts <;> rfl
    · rfl
  | succ n ih =>
    obtain ⟨text, more, v, ws, rfl, hv, hws, rfl⟩ := takeEach_cons_iff.mp h
    have hroom : hasRoom bound = true := by
      cases bound with
      | none => rfl
      | some m => have := hn m rfl; rw [hasRoom, bne_iff_ne]; omega
    rw [takeUpTo, if_pos hroom, hv]
    simp only
    rw [ih ?_ ?_ hws]
    · simp only [Option.mem_def, Option.map_eq_some_iff, forall_exists_index, and_imp]
      rintro _ m hm rfl
      have := hn m hm
      omega
    · exact hstop.imp_left fun e => by rw [e]; rfl

end ValueType

/-! ## Rows of types -/

namespace ValueSpec

/-- The type of every value of the entry, where its values are not grouped. -/
def rowType? : ValueSpec → Option ValueType
  | single t => some t
  | repeated r => some r.type
  | compound _ | byName _ => none

variable {s : ValueSpec} {t : ValueType} {texts rest : List String} {vs : List TypedValue}

theorem most_of_isFixed (ht : s.rowType? = some t) (hs : s.isFixed = true) : s.most = some s.least := by
  cases s with
  | single t => rfl
  | repeated r => exact beq_iff_eq.mp hs
  | compound c | byName name => cases ht

theorem take_single (t : ValueType) (texts : List String) :
    (single t).take texts = ValueType.takeEach (List.replicate 1 t) texts := by
  cases texts with
  | nil => rfl
  | cons text more =>
    rw [take, ValueType.take, List.replicate_one, ValueType.takeEach, ValueType.take]
    cases t.accept? text <;> rfl

theorem take_repeated_eq_some_iff {r : Repeated} :
    (repeated r).take texts = some (vs, rest) ↔ ∃ least mid more,
      ValueType.takeEach (List.replicate r.min r.type) texts = some (least, mid) ∧
      r.type.takeUpTo (r.max.map (· - r.min)) mid = (more, rest) ∧ vs = least ++ more := by
  rw [take, ValueType.takeExactly_eq]
  constructor
  · intro h
    obtain ⟨⟨least, mid⟩, hleast, h⟩ := Option.bind_eq_some_iff.mp h
    cases h
    exact ⟨least, mid, _, hleast, rfl, rfl⟩
  · intro he
    obtain ⟨least, mid, more, hleast, hmore, rfl⟩ := he
    simp [hleast, hmore]

theorem takeAll_cons_iff {specs : List ValueSpec} :
    takeAll (s :: specs) texts = some (vs, rest) ↔ ∃ vs₁ mid vs₂,
      s.take texts = some (vs₁, mid) ∧ takeAll specs mid = some (vs₂, rest) ∧ vs = vs₁ ++ vs₂ := by
  constructor
  · intro h
    obtain ⟨⟨vs₁, mid⟩, h₁, h⟩ := Option.bind_eq_some_iff.mp h
    obtain ⟨⟨vs₂, last⟩, h₂, h⟩ := Option.bind_eq_some_iff.mp h
    cases h
    exact ⟨vs₁, mid, vs₂, h₁, h₂, rfl⟩
  · intro he
    obtain ⟨vs₁, mid, vs₂, h₁, h₂, rfl⟩ := he
    simp [takeAll, h₁, h₂]

theorem exists_takeEach_of_take (ht : s.rowType? = some t) (h : s.take texts = some (vs, rest)) :
    ∃ n, s.least ≤ n ∧ (∀ m ∈ s.most, n ≤ m) ∧
      ValueType.takeEach (List.replicate n t) texts = some (vs, rest) := by
  cases s with
  | single u =>
    cases ht
    exact ⟨1, Nat.le_refl 1, by simp [most], by rw [← take_single, h]⟩
  | repeated r =>
    cases ht
    obtain ⟨least, mid, more, hleast, hmore, rfl⟩ := take_repeated_eq_some_iff.mp h
    obtain ⟨n, hn, hrow⟩ := r.type.exists_takeEach_of_takeUpTo (r.max.map (· - r.min)) mid
    refine ⟨r.min + n, Nat.le_add_right _ _, fun m hm => ?_, ?_⟩
    · have := hn (m - r.min) (Option.mem_map_of_mem _ hm)
      have := r.min_le_max m hm
      omega
    · rw [hmore] at hrow
      rw [← List.replicate_append_replicate]
      exact ValueType.takeEach_append_iff.mpr ⟨_, _, _, hleast, hrow, rfl⟩
  | compound c | byName name => cases ht

theorem take_of_takeEach {n : Nat} (ht : s.rowType? = some t) (hleast : s.least ≤ n)
    (hmost : ∀ m ∈ s.most, n ≤ m) (hstop : s.isFixed = true ∨ rest = [])
    (h : ValueType.takeEach (List.replicate n t) texts = some (vs, rest)) :
    s.take texts = some (vs, rest) := by
  cases s with
  | single u =>
    cases ht
    obtain rfl : n = 1 := Nat.le_antisymm (hmost 1 rfl) hleast
    rw [take_single, h]
  | repeated r =>
    cases ht
    obtain ⟨k, rfl⟩ := Nat.exists_eq_add_of_le hleast
    rw [least, ← List.replicate_append_replicate] at h
    obtain ⟨vs₁, mid, vs₂, h₁, h₂, rfl⟩ := ValueType.takeEach_append_iff.mp h
    refine take_repeated_eq_some_iff.mpr ⟨vs₁, mid, vs₂, h₁, ?_, rfl⟩
    refine ValueType.takeUpTo_of_takeEach (fun m hm => ?_) (hstop.imp_left fun hs => ?_) h₂
    · obtain ⟨max, hmax, rfl⟩ := Option.map_eq_some_iff.mp hm
      have := hmost max hmax
      rw [least] at this
      omega
    · have hmax : r.max = some r.min := beq_iff_eq.mp hs
      have := hmost r.min hmax
      rw [least] at this
      rw [hmax, Option.map_some]
      congr 1
      omega
  | compound c | byName name => cases ht

end ValueSpec

inductive Slots : List ValueSpec → List ValueType → Prop
  | nil : Slots [] []
  | cons {s : ValueSpec} {t : ValueType} {n : Nat} {specs : List ValueSpec} {types : List ValueType} :
      s.rowType? = some t → s.least ≤ n → (∀ m ∈ s.most, n ≤ m) → Slots specs types →
      Slots (s :: specs) (List.replicate n t ++ types)

theorem onlyLastVaries_cons {s : ValueSpec} {specs : List ValueSpec}
    (h : onlyLastVaries (s :: specs) = true) :
    (s.isFixed = true ∨ specs = []) ∧ onlyLastVaries specs = true := by
  cases specs with
  | nil => exact ⟨.inr rfl, rfl⟩
  | cons u specs =>
    simp only [onlyLastVaries, List.dropLast_cons_cons, List.all_cons, Bool.and_eq_true] at h
    exact ⟨.inl h.1, h.2⟩

namespace Slots

variable {specs : List ValueSpec} {types as bs : List ValueType} {texts rest : List String}
variable {vs : List TypedValue}

theorem unique (h : onlyLastVaries specs = true) (ha : Slots specs as) (hb : Slots specs bs)
    (hl : as.length = bs.length) : as = bs := by
  induction ha generalizing bs with
  | nil => cases hb; rfl
  | @cons s t n specs as ht hleast hmost has ih =>
    cases hb with
    | @cons _ u k _ bs hu hleast' hmost' hbs =>
      obtain rfl := Option.some.inj (ht.symm.trans hu)
      obtain ⟨hfixed, hspecs⟩ := onlyLastVaries_cons h
      simp only [List.length_append, List.length_replicate] at hl
      obtain rfl : n = k := by
        rcases hfixed with hs | rfl
        · have hm := ValueSpec.most_of_isFixed ht hs
          have := hmost _ hm
          have := hmost' _ hm
          omega
        · cases has; cases hbs
          simpa using hl
      rw [ih hspecs hbs (by omega)]

theorem exists_of_takeAll (hrow : ∀ s ∈ specs, ∃ t, s.rowType? = some t)
    (h : ValueSpec.takeAll specs texts = some (vs, rest)) :
    ∃ types, Slots specs types ∧ ValueType.takeEach types texts = some (vs, rest) := by
  induction specs generalizing texts vs with
  | nil => exact ⟨[], .nil, h⟩
  | cons s specs ih =>
    obtain ⟨vs₁, mid, vs₂, h₁, h₂, rfl⟩ := ValueSpec.takeAll_cons_iff.mp h
    obtain ⟨t, ht⟩ := hrow s (by simp)
    obtain ⟨n, hleast, hmost, hn⟩ := ValueSpec.exists_takeEach_of_take ht h₁
    obtain ⟨types, hs, htypes⟩ := ih (fun u hu => hrow u (by simp [hu])) h₂
    exact ⟨_, .cons ht hleast hmost hs, ValueType.takeEach_append_iff.mpr ⟨_, _, _, hn, htypes, rfl⟩⟩

theorem takeAll_of_takeEach (h : onlyLastVaries specs = true) (hs : Slots specs types)
    (ht : ValueType.takeEach types texts = some (vs, [])) :
    ValueSpec.takeAll specs texts = some (vs, []) := by
  induction hs generalizing texts vs with
  | nil => exact ht
  | @cons s t n specs types hrow hleast hmost hs ih =>
    obtain ⟨vs₁, mid, vs₂, h₁, h₂, rfl⟩ := ValueType.takeEach_append_iff.mp ht
    obtain ⟨hfixed, hspecs⟩ := onlyLastVaries_cons h
    -- an entry that varies is the last one, and nothing is left behind it
    have hstop : s.isFixed = true ∨ mid = [] := by
      rcases hfixed with hfixed | rfl
      · exact .inl hfixed
      · cases hs
        cases h₂
        exact .inr rfl
    exact ValueSpec.takeAll_cons_iff.mpr
      ⟨_, _, _, ValueSpec.take_of_takeEach hrow hleast hmost hstop h₁, ih hspecs h₂, rfl⟩

end Slots

end ActorHub
