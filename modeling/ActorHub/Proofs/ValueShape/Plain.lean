import ActorHub.Proofs.ValueShape.Slots
import ActorHub.Proofs.ValueType.Shown

/-!
# Plain shapes

The entries of a plain shape are single and repeated plain types. A row of plain types decides how its
values are typed.
-/

namespace ActorHub

namespace ValueSpec

def IsPlain (s : ValueSpec) : Prop :=
  ∃ t, s.rowType? = some t ∧ t.IsPlain

end ValueSpec

theorem Slots.isPlain {specs : List ValueSpec} {types : List ValueType} (h : Slots specs types)
    (hs : ∀ s ∈ specs, s.IsPlain) : ∀ t ∈ types, t.IsPlain := by
  induction h with
  | nil => simp
  | cons ht _ _ _ ih =>
    intro u hu
    rcases List.mem_append.mp hu with hu | hu
    · obtain ⟨t, ht', hplain⟩ := hs _ (List.mem_cons_self ..)
      rw [List.eq_of_mem_replicate hu, Option.some.inj (ht.symm.trans ht')]
      exact hplain
    · exact ih (fun s h => hs s (List.mem_cons_of_mem _ h)) u hu

namespace ValueShape

theorem typed?_eq_some_iff {s : ValueShape} (hs : ∀ spec ∈ s.specs, spec.IsPlain) {texts : List String}
    {vs : List TypedValue} : s.typed? texts = some vs ↔
      ∃ types, Slots s.specs types ∧ ValueType.takeEach types texts = some (vs, []) := by
  have htyped : s.typed? texts = some vs ↔ ValueSpec.takeAll s.specs texts = some (vs, []) := by
    unfold typed?
    split
    · rename_i h; simp [h]
    · rename_i h
      exact ⟨nofun, fun e => absurd e (h vs)⟩
  rw [htyped]
  constructor
  · exact Slots.exists_of_takeAll fun spec h => (hs spec h).imp fun _ => And.left
  · intro he
    obtain ⟨types, hslots, ht⟩ := he
    exact hslots.takeAll_of_takeEach s.only_last_varies ht

end ValueShape

end ActorHub
