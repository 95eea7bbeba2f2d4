import ActorHub.Text.Split

/-!
# Texts cut at separators

Cutting a text is the library's `List.splitOn`, and so it undoes the joining of parts that hold no separator.
-/

namespace ActorHub.Text

variable {separator c : Char} {cs part : List Char} {parts : List (List Char)}

theorem splitChars_eq_splitOn (separator : Char) (cs : List Char) :
    splitChars separator cs = cs.splitOn separator := by
  induction cs with
  | nil => rw [splitChars, List.splitOn_nil]
  | cons c cs ih =>
    rw [splitChars, List.splitOn_cons_eq_if_modifyHead, ← ih]
    cases hparts : splitChars separator cs with
    | nil => exact absurd hparts (splitChars_ne_nil separator cs)
    | cons part parts => simp

theorem splitChars_of_not_mem (h : separator ∉ cs) : splitChars separator cs = [cs] := by
  rw [splitChars_eq_splitOn, List.splitOn_eq_singleton h]

theorem splitChars_append (front behind : List Char) : splitChars separator (front ++ separator :: behind) =
    splitChars separator front ++ splitChars separator behind := by
  simp only [splitChars_eq_splitOn, List.splitOn]
  exact List.splitOnP_append_cons front behind (beq_self_eq_true separator)

theorem mem_of_mem_splitChars (hpart : part ∈ splitChars separator cs) (hc : c ∈ part) : c ∈ cs := by
  have hjoined : [separator].intercalate (splitChars separator cs) = cs := by
    rw [splitChars_eq_splitOn, List.intercalate_splitOn]
  obtain ⟨i, hi⟩ := List.mem_iff_getElem?.mp hpart
  have hplace : ((splitChars separator cs).intersperse [separator])[2 * i]? = some part :=
    List.getElem?_intersperse_two_mul.trans hi
  rw [← hjoined]
  exact List.mem_flatten.mpr ⟨part, List.mem_of_getElem? hplace, hc⟩

theorem splitChars_intercalate (separator : Char) (h : parts ≠ []) :
    splitChars separator ([separator].intercalate parts) = parts.flatMap (splitChars separator) := by
  induction parts with
  | nil => exact absurd rfl h
  | cons part parts ih =>
    cases parts with
    | nil => simp
    | cons next parts =>
      rw [List.intercalate_cons_cons, List.append_assoc, List.singleton_append, splitChars_append,
        ih (List.cons_ne_nil next parts)]
      rfl

theorem splitChars_intercalate_of_not_mem (h : parts ≠ []) (hparts : ∀ part ∈ parts, separator ∉ part) :
    splitChars separator ([separator].intercalate parts) = parts := by
  rw [splitChars_eq_splitOn, List.splitOn_intercalate separator hparts h]

end ActorHub.Text
