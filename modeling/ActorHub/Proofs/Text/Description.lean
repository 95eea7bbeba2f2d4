import ActorHub.Proofs.Text.Names
import ActorHub.Proofs.Text.Split
import ActorHub.Proofs.Text.Wrap

/-!
# Lines of descriptions

A description shows each value beside its label, wrapped into as many lines as it takes. The label is told
from any line that it begins (`labelOf_append`), so that what a text shows beside a label is the first line
of a value with this label and nothing else (`shows_renderAll_iff`).
-/

namespace ActorHub

namespace Text

/-! ## Wrapped lines -/

section
variable {width : Nat} {text : String}

theorem exists_filled (hwidth : 0 < width) (text : String) :
    ∃ s, Filled width (words text.toList) (words text.toList) [] s ∧ s.left = [] ∧
      (wrap width text).map String.toList = s.closed ++ [s.line] := by
  have hstart : Filled width (words text.toList) [] [] ⟨[], [], words text.toList⟩ :=
    filled_start fun word hword => ⟨(mem_words hword).1, space_not_mem_words hword⟩
  obtain ⟨hleft, hlines, placed, front, h⟩ := hstart.run hwidth (Nat.le_refl _)
  obtain rfl : placed = words text.toList := h.placed_eq hleft
  obtain rfl : front = [] := h.front_eq_nil hleft
  refine ⟨_, h, hleft, ?_⟩
  rw [← h.lines_eq hleft, hlines]
  exact toList_wrap width text

theorem newline_not_mem_wrap (hwidth : 0 < width) {line : List Char}
    (hline : line ∈ (wrap width text).map String.toList) : '\n' ∉ line := by
  obtain ⟨s, h, hleft, hlines⟩ := exists_filled hwidth text
  intro hn
  have hsqueezed : '\n' ∈ squeeze s.lines.flatten := by
    rw [h.lines_eq hleft, ← hlines]
    exact List.mem_filter.mpr ⟨List.mem_flatten.mpr ⟨line, hline, hn⟩, by decide⟩
  rw [h.squeeze_lines hleft, flatten_words, List.mem_filter] at hsqueezed
  exact absurd hsqueezed.2 (by decide)

theorem squeeze_ne_nil {cs : List Char} (hne : cs ≠ []) (hhead : cs.head? ≠ some ' ') : squeeze cs ≠ [] := by
  obtain ⟨c, rest, rfl⟩ := List.exists_cons_of_ne_nil hne
  have hc : c ≠ ' ' := fun hc => hhead (congrArg some hc)
  simp [squeeze, hc]

theorem wrap_of_words_cons (hwidth : 0 < width) {word : List Char} {rest : List (List Char)}
    (hwords : words text.toList = word :: rest) (hshort : word.length ≤ width) :
    ∃ right more, (wrap width text).map String.toList = (word ++ right) :: more := by
  obtain ⟨s, h, hleft, hlines⟩ := exists_filled hwidth text
  obtain ⟨above, left, right, below, hsplit, -, -, hbefore⟩ := h.whole [] word rest hwords hshort
  have hused : ∀ line ∈ s.closed ++ [s.line], line ≠ [] ∧ Tidy line := by
    intro line hline
    refine ⟨?_, h.tidy line hline⟩
    rcases List.mem_append.mp hline with hline | hline
    · exact h.used line hline
    · rw [List.mem_singleton.mp hline]
      exact h.line_ne_nil hleft (by simp [hwords])
  rw [hsplit] at hused
  rw [squeeze_append] at hbefore
  obtain ⟨habove, hnone⟩ := List.append_eq_nil_iff.mp hbefore
  -- neither a line nor a part of one that does not begin with a space comes before the word
  have haboveNil : above = [] := by
    cases above with
    | nil => rfl
    | cons line above =>
      obtain ⟨hne, htidy⟩ := hused line (by simp)
      rw [List.flatten_cons, squeeze_append] at habove
      exact absurd (List.append_eq_nil_iff.mp habove).1 (squeeze_ne_nil hne htidy.head)
  have hleftNil : left = [] := by
    by_contra hne
    have htidy := (hused (left ++ word ++ right) (by simp)).2
    have hhead : left.head? ≠ some ' ' := by
      have hhead := htidy.head
      rwa [List.append_assoc, List.head?_append_of_ne_nil left hne] at hhead
    exact squeeze_ne_nil hne hhead hnone
  exact ⟨right, below, by rw [hlines, hsplit, haboveNil, hleftNil]; rfl⟩

end

end Text

namespace Descriptor

/-! ## Labels -/

structure IsLabel (label : String) : Prop where
  ne_nil : label.toList ≠ []
  space : ' ' ∉ label.toList
  colon : ':' ∉ label.toList
  newline : '\n' ∉ label.toList

def labelOf (line : List Char) : List Char :=
  (line.dropWhile (· = ' ')).takeWhile (· ≠ ':')

def indent : List Char :=
  List.replicate (labelWidth + 2) ' '

section
variable {label : String}

theorem toList_pushn (s : String) (c : Char) (n : Nat) :
    (s.pushn c n).toList = s.toList ++ List.replicate n c := by
  induction n with
  | zero => simp [String.pushn, Nat.repeat]
  | succ n ih =>
    rw [String.pushn_eq_repeat_push] at ih ⊢
    rw [Nat.repeat, String.toList_push, ih, List.replicate_succ', List.append_assoc]

theorem toList_alignLabel (label : String) : (alignLabel label).toList =
    List.replicate (labelWidth - label.length) ' ' ++ (label.toList ++ [':', ' ']) := by
  simp [alignLabel, toList_pushn]

theorem newline_not_mem_alignLabel (h : IsLabel label) : '\n' ∉ (alignLabel label).toList := by
  rw [toList_alignLabel]
  simp [h.newline]

theorem IsLabel.head (h : IsLabel label) (behind : List Char) :
    ∀ c ∈ (label.toList ++ behind).head?, c ≠ ' ' := by
  intro c hc
  obtain ⟨d, rest, hlabel⟩ := List.exists_cons_of_ne_nil h.ne_nil
  have hspace := h.space
  rw [hlabel, List.cons_append, List.head?_cons, Option.mem_some_iff] at hc
  rw [hlabel, hc] at hspace
  rintro rfl
  exact hspace List.mem_cons_self

theorem labelOf_append (h : IsLabel label) (beside : List Char) :
    labelOf ((alignLabel label).toList ++ beside) = label.toList := by
  have hdrop : (alignLabel label).toList ++ beside = List.replicate (labelWidth - label.length) ' ' ++
      (label.toList ++ ':' :: ' ' :: beside) := by
    rw [toList_alignLabel]
    simp
  rw [labelOf, hdrop, dropWhile_append_of_stop, takeWhile_append_of_stop]
  · intro c hc
    simp only [ne_eq, decide_not, Bool.not_eq_eq_eq_not, Bool.not_true, decide_eq_false_iff_not]
    rintro rfl
    exact h.colon hc
  · simp
  · intro c hc
    simp [(List.mem_replicate.mp hc).2]
  · intro c hc
    simpa using h.head _ c hc

/-- The lines of a value are indented further than any label. -/
theorem ne_indent_append (h : IsLabel label) (beside line : List Char) :
    (alignLabel label).toList ++ beside ≠ indent ++ line := by
  obtain ⟨c, rest, hlabel⟩ := List.exists_cons_of_ne_nil h.ne_nil
  have hsplit : indent = List.replicate (labelWidth - label.length) ' ' ++
      ' ' :: List.replicate (labelWidth + 1 - (labelWidth - label.length)) ' ' := by
    rw [indent, ← List.replicate_succ, List.replicate_append_replicate]
    congr 1
    omega
  intro heq
  rw [toList_alignLabel, hsplit, hlabel] at heq
  simp only [List.append_assoc, List.cons_append] at heq
  obtain ⟨rfl, -⟩ := List.cons.inj (List.append_cancel_left heq)
  exact h.space (hlabel ▸ List.mem_cons_self)

theorem label_eq_of_append_eq {other : String} (h : IsLabel label) (hother : IsLabel other)
    {beside behind : List Char}
    (heq : (alignLabel label).toList ++ beside = (alignLabel other).toList ++ behind) :
    label = other ∧ beside = behind := by
  have hlabel := congrArg labelOf heq
  rw [labelOf_append h, labelOf_append hother, String.toList_inj] at hlabel
  subst hlabel
  exact ⟨rfl, List.append_cancel_left heq⟩

end

/-! ## Descriptions -/

def lines (d : Descriptor) : List (List Char) :=
  match (Text.wrap valueWidth d.value).map String.toList with
  | [] => []
  | first :: more => ((alignLabel d.label).toList ++ first) :: more.map (indent ++ ·)

theorem intercalate_indent (label first : List Char) (more : List (List Char)) :
    label ++ ('\n' :: indent).intercalate (first :: more) =
      ['\n'].intercalate ((label ++ first) :: more.map (indent ++ ·)) := by
  induction more generalizing label first with
  | nil => simp
  | cons next more ih =>
    rw [List.intercalate_cons_cons, List.map_cons, List.intercalate_cons_cons, ← ih]
    simp

theorem toList_render (d : Descriptor) : d.render.toList = (alignLabel d.label).toList ++
    ('\n' :: indent).intercalate ((Text.wrap valueWidth d.value).map String.toList) := by
  simp only [render, String.toList_append, String.toList_intercalate, toList_pushn]
  rfl

theorem splitChars_render {d : Descriptor} (h : IsLabel d.label) :
    Text.splitChars '\n' d.render.toList = d.lines := by
  obtain ⟨s, -, -, hwrap⟩ := Text.exists_filled (show 0 < valueWidth by decide) d.value
  have hclean (line : List Char) : line ∈ (Text.wrap valueWidth d.value).map String.toList → '\n' ∉ line :=
    Text.newline_not_mem_wrap (by decide)
  rw [toList_render]
  unfold lines
  cases hlines : (Text.wrap valueWidth d.value).map String.toList with
  | nil => simp [hlines] at hwrap
  | cons first more =>
    rw [hlines] at hclean
    rw [intercalate_indent]
    apply Text.splitChars_intercalate_of_not_mem (List.cons_ne_nil _ _)
    intro line hline
    rcases List.mem_cons.mp hline with rfl | hline
    · rw [List.mem_append, not_or]
      exact ⟨newline_not_mem_alignLabel h, hclean first List.mem_cons_self⟩
    · obtain ⟨l, hl, rfl⟩ := List.mem_map.mp hline
      rw [List.mem_append, not_or]
      exact ⟨by simp [indent], hclean l (List.mem_cons_of_mem first hl)⟩

theorem mem_lines_iff {d : Descriptor} (h : IsLabel d.label) {label : String} (hlabel : IsLabel label)
    {beside : List Char} : (alignLabel label).toList ++ beside ∈ d.lines ↔
      d.label = label ∧ ((Text.wrap valueWidth d.value).map String.toList).head? = some beside := by
  unfold lines
  cases (Text.wrap valueWidth d.value).map String.toList with
  | nil => simp
  | cons first more =>
    rw [List.mem_cons, List.head?_cons, Option.some.injEq]
    constructor
    · intro hline
      rcases hline with hline | hline
      · obtain ⟨rfl, rfl⟩ := label_eq_of_append_eq hlabel h hline
        exact ⟨rfl, rfl⟩
      · obtain ⟨line, -, hline⟩ := List.mem_map.mp hline
        exact absurd hline.symm (ne_indent_append hlabel beside line)
    · rintro ⟨rfl, rfl⟩
      exact .inl rfl

/-- A line of the text begins with the label and goes on as given. -/
def Shows (text label : String) (beside : List Char) : Prop :=
  (alignLabel label).toList ++ beside ∈ Text.splitChars '\n' text.toList

/-- What a description shows beside a label is the first line of a value with this label. -/
theorem shows_renderAll_iff {ds : List Descriptor} (hne : ds ≠ []) (hds : ∀ d ∈ ds, IsLabel d.label)
    {label : String} (hlabel : IsLabel label) {beside : List Char} :
    Shows (renderAll ds) label beside ↔ ∃ d ∈ ds, d.label = label ∧
      ((Text.wrap valueWidth d.value).map String.toList).head? = some beside := by
  have hsplit : Text.splitChars '\n' (renderAll ds).toList = ds.flatMap lines := by
    have hparts : (ds.map render).map String.toList ≠ [] := by simpa using hne
    rw [renderAll, String.toList_intercalate, show "\n".toList = ['\n'] from rfl,
      Text.splitChars_intercalate '\n' hparts, List.flatMap_map, List.flatMap_map]
    exact List.flatMap_congr fun d hd => splitChars_render (hds d hd)
  rw [Shows, hsplit, List.mem_flatMap]
  constructor
  · rintro ⟨d, hd, hline⟩
    exact ⟨d, hd, (mem_lines_iff (hds d hd) hlabel).mp hline⟩
  · rintro ⟨d, hd, hshown⟩
    exact ⟨d, hd, (mem_lines_iff (hds d hd) hlabel).mpr hshown⟩

end Descriptor

end ActorHub
