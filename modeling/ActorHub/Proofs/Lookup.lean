import Mathlib.Data.List.Basic

/-!
# Lookup

Association lists in which an entry takes the place of the one before it under its key.
-/

namespace ActorHub

section
variable {κ α : Type} [DecidableEq κ]

theorem lookup_filter_ne (l : List (κ × α)) (m k : κ) :
    (l.filter (·.1 != m)).lookup k = if k = m then none else l.lookup k := by
  induction l with
  | nil => simp
  | cons e l ih =>
    obtain ⟨i, a⟩ := e
    rw [List.filter_cons, List.lookup_cons]
    by_cases hi : i = m
    · subst hi
      rw [if_neg (by simp), ih]
      by_cases hk : k = i
      · simp only [hk, if_true]
      · simp only [hk, if_false, beq_false_of_ne hk]
    · by_cases hk : k = i
      · subst hk
        simp [hi]
      · simp [hi, ih, List.lookup_cons, beq_false_of_ne hk]

theorem lookup_replaced (l : List (κ × α)) (m : κ) (a : α) (k : κ) :
    ((m, a) :: l.filter (·.1 != m)).lookup k = if k = m then some a else l.lookup k := by
  rw [List.lookup_cons, lookup_filter_ne]
  by_cases hk : k = m
  · simp [hk]
  · simp [hk, beq_false_of_ne hk]

end

end ActorHub
