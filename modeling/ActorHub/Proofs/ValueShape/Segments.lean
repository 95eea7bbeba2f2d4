import ActorHub.Proofs.ValueShape.Counts
import ActorHub.Proofs.ValueShape.Slots
import ActorHub.Proofs.ValueType.Shown

/-!
# Segments

A shape takes the values whose texts can be cut into segments, one for each entry in order. The entries
are read from the front, each takes as much as it can, and none is read again; every cut is found
nevertheless, because only the last entry may vary and what it leaves is left over.
-/

namespace ActorHub

/-! ## Texts by types -/

namespace ValueType

/-- What a type makes of a text: the value that it reads, or the invalid value of its sentinel. -/
inductive Accepts (t : ValueType) (text : String) : TypedValue → Prop
  | reads {v : TypedValue} : t.read text = .ok v → Accepts t text v
  | sentinel : t.isSentinel text = true → Accepts t text .invalid

inductive AcceptsEach : List ValueType → List String → List TypedValue → Prop
  | nil : AcceptsEach [] [] []
  | cons {t : ValueType} {text : String} {v : TypedValue} {ts : List ValueType} {texts : List String}
      {vs : List TypedValue} : t.Accepts text v → AcceptsEach ts texts vs →
      AcceptsEach (t :: ts) (text :: texts) (v :: vs)

variable {t : ValueType} {ts : List ValueType} {text : String} {texts rest : List String}
variable {v : TypedValue} {vs : List TypedValue}

theorem read_eq_invalid_iff : t.read text = .error .invalid ↔ t.isSentinel text = true := by
  unfold read validate
  cases h : t.isSentinel text with
  | true => simp [bind, Except.bind]
  | false => simpa [bind, Except.bind] using readValid_ne_invalid

theorem accepts_iff : t.Accepts text v ↔ t.accept? text = some v := by
  constructor
  · intro h
    cases h with
    | reads hr => rw [accept?, hr]
    | sentinel hs => rw [accept?, read_eq_invalid_iff.mpr hs]
  · intro h
    unfold accept? at h
    split at h
    · next hr => exact Option.some.inj h ▸ .reads hr
    · next hr => exact Option.some.inj h ▸ .sentinel (read_eq_invalid_iff.mp hr)
    · cases h

theorem AcceptsEach.length (h : AcceptsEach ts texts vs) : texts.length = ts.length := by
  induction h with
  | nil => rfl
  | cons _ _ ih => rw [List.length_cons, List.length_cons, ih]

theorem takeEach_iff : takeEach ts texts = some (vs, rest) ↔
    ∃ segment, texts = segment ++ rest ∧ AcceptsEach ts segment vs := by
  induction ts generalizing texts vs with
  | nil =>
    rw [takeEach_nil, Option.some.injEq, Prod.mk.injEq]
    constructor
    · intro h
      obtain ⟨rfl, rfl⟩ := h
      exact ⟨[], rfl, .nil⟩
    · intro he
      obtain ⟨segment, rfl, h⟩ := he
      cases h
      exact ⟨rfl, rfl⟩
  | cons t ts ih =>
    rw [takeEach_cons_iff]
    constructor
    · intro he
      obtain ⟨text, more, v, ws, rfl, hv, hws, rfl⟩ := he
      obtain ⟨segment, rfl, h⟩ := ih.mp hws
      exact ⟨text :: segment, rfl, .cons (accepts_iff.mpr hv) h⟩
    · intro he
      obtain ⟨segment, rfl, h⟩ := he
      cases h with
      | cons hv h => exact ⟨_, _, _, _, rfl, accepts_iff.mp hv, ih.mpr ⟨_, rfl, h⟩, rfl⟩

end ValueType

/-! ## Segments of entries -/

namespace ValueSpec

/-- A segment of texts that an entry takes whole, and the values that it makes of it. An entry that
still refers to a type by its name takes none. -/
inductive Fits : ValueSpec → List String → List TypedValue → Prop
  | single {t : ValueType} {text : String} {v : TypedValue} :
      t.Accepts text v → Fits (.single t) [text] [v]
  | repeated {r : Repeated} {k : Nat} {texts : List String} {vs : List TypedValue} :
      r.min ≤ k → (∀ m ∈ r.max, k ≤ m) → ValueType.AcceptsEach (List.replicate k r.type) texts vs →
      Fits (.repeated r) texts vs
  | compound {c : Compound} {texts : List String} {vs : List TypedValue} :
      ValueType.AcceptsEach c.types texts vs → Fits (.compound c) texts [c.wrap vs]

variable {s : ValueSpec} {texts segment rest : List String} {vs : List TypedValue}

theorem take_compound_iff {c : Compound} : (compound c).take texts = some (vs, rest) ↔
    ∃ ws, ValueType.takeEach c.types texts = some (ws, rest) ∧ vs = [c.wrap ws] := by
  simp only [take, Option.map_eq_some_iff, Prod.mk.injEq, Prod.exists]
  constructor
  · intro he
    obtain ⟨ws, rest', h, rfl, rfl⟩ := he
    exact ⟨ws, h, rfl⟩
  · intro he
    obtain ⟨ws, h, rfl⟩ := he
    exact ⟨ws, rest, h, rfl, rfl⟩

theorem Fits.take (h : s.Fits segment vs) (hstop : s.isFixed = true ∨ rest = []) :
    s.take (segment ++ rest) = some (vs, rest) := by
  cases h with
  | @single t text v hv =>
    rw [take_single]
    exact ValueType.takeEach_iff.mpr ⟨[text], rfl, .cons hv .nil⟩
  | repeated hmin hmax hs =>
    exact take_of_takeEach rfl hmin hmax hstop (ValueType.takeEach_iff.mpr ⟨_, rfl, hs⟩)
  | compound hs => exact take_compound_iff.mpr ⟨_, ValueType.takeEach_iff.mpr ⟨_, rfl, hs⟩, rfl⟩

theorem Fits.takes (h : s.Fits segment vs) : s.Takes segment.length := by
  cases h with
  | single hv => exact .single
  | repeated hmin hmax hs =>
    rw [hs.length, List.length_replicate]
    exact .repeated hmin hmax
  | compound hs =>
    rw [hs.length]
    exact .compound

end ValueSpec

/-! ## Cuts -/

/-- Texts cut into one segment for each entry, with nothing left over, and the values of the segments
in order. -/
inductive Cut : List ValueSpec → List String → List TypedValue → Prop
  | nil : Cut [] [] []
  | cons {s : ValueSpec} {specs : List ValueSpec} {segment rest : List String}
      {vs ws : List TypedValue} : s.Fits segment vs → Cut specs rest ws →
      Cut (s :: specs) (segment ++ rest) (vs ++ ws)

section
variable {specs : List ValueSpec} {texts rest : List String} {vs : List TypedValue}

theorem Cut.takeAll (h : Cut specs texts vs) (hlast : onlyLastVaries specs = true) :
    ValueSpec.takeAll specs texts = some (vs, []) := by
  induction h with
  | nil => rfl
  | @cons s specs segment rest vs ws hs hcut ih =>
    obtain ⟨hfixed, hspecs⟩ := onlyLastVaries_cons hlast
    -- behind the last entry there is no text
    have hstop : s.isFixed = true ∨ rest = [] := by
      rcases hfixed with hfixed | rfl
      · exact .inl hfixed
      · cases hcut
        exact .inr rfl
    exact ValueSpec.takeAll_cons_iff.mpr ⟨vs, rest, ws, hs.take hstop, ih hspecs, rfl⟩

theorem Cut.total (h : Cut specs texts vs) : Total specs texts.length := by
  induction h with
  | nil => exact .nil
  | cons hs _ ih =>
    rw [List.length_append]
    exact .cons hs.takes ih

end

/-! ## Shapes -/

namespace ValueShape

end ValueShape

end ActorHub
