import ActorHub.Text.Wrap
import Mathlib.Data.List.Chain
import Mathlib.Data.List.TakeWhile
import Mathlib.Logic.Function.Iterate

/-!
# Filled lines

Lines are filled in rounds. A round places the next word behind the open line, or cuts it at the end of
the line if it is longer than a line, or closes the line. Every round keeps `Filled`, which says where the
words placed so far stand and why each closed line was closed, and every round takes something away from
`Filling.work`, so that the rounds come to an end.
-/

namespace ActorHub.Text

/-! ## Words -/

/-- What lies between the blanks of a text, without the empty pieces between two blanks in a row. -/
def pieces (cs : List Char) : List (List Char) :=
  (cs.splitOnP isBlank).filter (· ≠ [])

section
variable {c : Char} {cs rest : List Char}

theorem words_of_dropBlanks_eq_nil (h : dropBlanks cs = []) : words cs = [] := by
  rw [words]
  split
  · rfl
  · simp_all

theorem words_of_dropBlanks_eq_cons (h : dropBlanks cs = c :: rest) :
    words cs = (c :: rest.takeWhile fun c => !isBlank c) :: words (rest.dropWhile fun c => !isBlank c) := by
  rw [words]
  split
  · simp_all
  · next h' =>
    rw [h] at h'
    cases h'
    rfl

theorem not_isBlank_of_mem_run (h : dropBlanks cs = c :: rest) :
    ∀ b ∈ c :: rest.takeWhile (fun c => !isBlank c), isBlank b = false := by
  intro b hb
  rcases List.mem_cons.mp hb with rfl | hb
  · have hhead := List.head?_dropWhile_not isBlank cs
    rw [show cs.dropWhile isBlank = b :: rest from h] at hhead
    simpa using hhead
  · simpa using List.mem_takeWhile_imp hb

theorem filter_dropBlanks (cs : List Char) :
    (dropBlanks cs).filter (fun c => !isBlank c) = cs.filter fun c => !isBlank c := by
  induction cs with
  | nil => rfl
  | cons c cs ih =>
    by_cases hc : isBlank c = true
    · rw [dropBlanks, List.dropWhile_cons_of_pos hc, List.filter_cons_of_neg (by simp [hc])]
      exact ih
    · rw [dropBlanks, List.dropWhile_cons_of_neg hc]

theorem mem_words {word : List Char} (hword : word ∈ words cs) :
    word ≠ [] ∧ ∀ c ∈ word, isBlank c = false := by
  induction cs using words.induct with
  | case1 cs h =>
    rw [words_of_dropBlanks_eq_nil h] at hword
    cases hword
  | case2 cs c rest h ih =>
    rw [words_of_dropBlanks_eq_cons h] at hword
    rcases List.mem_cons.mp hword with rfl | hword
    · exact ⟨List.cons_ne_nil _ _, not_isBlank_of_mem_run h⟩
    · exact ih hword

theorem flatten_words (cs : List Char) : (words cs).flatten = cs.filter fun c => !isBlank c := by
  induction cs using words.induct with
  | case1 cs h => rw [words_of_dropBlanks_eq_nil h, ← filter_dropBlanks, h]; rfl
  | case2 cs c rest h ih =>
    have hrun := not_isBlank_of_mem_run h
    have hkept : (c :: rest.takeWhile fun c => !isBlank c).filter (fun c => !isBlank c) =
        c :: rest.takeWhile fun c => !isBlank c :=
      List.filter_eq_self.mpr fun b hb => by simp [hrun b hb]
    rw [words_of_dropBlanks_eq_cons h, List.flatten_cons, ih, ← hkept, ← List.filter_append,
      List.cons_append, List.takeWhile_append_dropWhile, ← h, filter_dropBlanks]

theorem pieces_blank_cons (hc : isBlank c = true) : pieces (c :: cs) = pieces cs := by
  simp [pieces, List.splitOnP_cons_eq_if_modifyHead, hc]

theorem pieces_dropBlanks (cs : List Char) : pieces (dropBlanks cs) = pieces cs := by
  induction cs with
  | nil => rfl
  | cons c cs ih =>
    by_cases hc : isBlank c = true
    · rw [pieces_blank_cons hc, ← ih, dropBlanks, List.dropWhile_cons_of_pos hc]
      rfl
    · rw [dropBlanks, List.dropWhile_cons_of_neg hc]

theorem pieces_run {run : List Char} (hne : run ≠ []) (hrun : ∀ c ∈ run, isBlank c = false)
    (hstop : ∀ c ∈ rest.head?, isBlank c = true) : pieces (run ++ rest) = run :: pieces rest := by
  cases rest with
  | nil => simp [pieces, List.splitOnP_eq_singleton hrun, hne]
  | cons b rest =>
    have hb : isBlank b = true := hstop b rfl
    rw [pieces_blank_cons hb, pieces, List.splitOnP_append_cons_of_forall_mem hrun b hb]
    simp [pieces, hne]

theorem words_eq_pieces (cs : List Char) : words cs = pieces cs := by
  induction cs using words.induct with
  | case1 cs h => rw [words_of_dropBlanks_eq_nil h, ← pieces_dropBlanks, h]; rfl
  | case2 cs c rest h ih =>
    have hstop : ∀ b ∈ (rest.dropWhile fun c => !isBlank c).head?, isBlank b = true := by
      intro b hb
      have hhead := List.head?_dropWhile_not (fun c => !isBlank c) rest
      rw [hb] at hhead
      simpa using hhead
    rw [words_of_dropBlanks_eq_cons h, ih,
      ← pieces_run (List.cons_ne_nil _ _) (not_isBlank_of_mem_run h) hstop, List.cons_append,
      List.takeWhile_append_dropWhile, ← h, pieces_dropBlanks]

end

/-! ## Lines -/

def squeeze (cs : List Char) : List Char :=
  cs.filter (· ≠ ' ')

/-- No space at either end of the line and no two in a row. -/
structure Tidy (line : List Char) : Prop where
  head : line.head? ≠ some ' '
  last : line.getLast? ≠ some ' '
  apart : line.IsChain fun a b => a = ' ' → b ≠ ' '

/-- The word stands whole in one of the lines, set off by spaces, and the text before it in these lines
is as given. -/
def Stands (lines : List (List Char)) (before word : List Char) : Prop :=
  ∃ above left right below, lines = above ++ (left ++ word ++ right) :: below ∧
    (left = [] ∨ left.getLast? = some ' ') ∧ (right = [] ∨ right.head? = some ' ') ∧
    squeeze (above.flatten ++ left) = before

/-- The line below others is full, or it ends where a word of the text begins that does not fit after it.
Of a word longer than a line its first character has to fit. -/
def Closes (width : Nat) (ws above : List (List Char)) (line : List Char) : Prop :=
  line.length = width ∨ ∃ before word after, ws = before ++ word :: after ∧
    before.flatten = squeeze (above.flatten ++ line) ∧
    width < line.length + 1 + if word.length ≤ width then word.length else 1

section
variable {line piece before word : List Char} {closed lines : List (List Char)}

@[simp] theorem joinWord_nil (piece : List Char) : joinWord [] piece = piece :=
  rfl

theorem joinWord_of_ne (h : line ≠ []) (piece : List Char) : joinWord line piece = line ++ ' ' :: piece :=
  if_neg h

theorem joinWord_ne_nil (h : piece ≠ []) : joinWord line piece ≠ [] := by
  by_cases hline : line = []
  · rwa [hline, joinWord_nil]
  · simp [joinWord_of_ne hline]

@[simp] theorem squeeze_append (as bs : List Char) : squeeze (as ++ bs) = squeeze as ++ squeeze bs :=
  List.filter_append as bs

theorem squeeze_of_not_mem (h : ' ' ∉ piece) : squeeze piece = piece := by
  apply List.filter_eq_self.mpr
  intro c hc
  simp only [ne_eq, decide_eq_true_eq]
  rintro rfl
  exact h hc

theorem squeeze_joinWord (h : ' ' ∉ piece) : squeeze (joinWord line piece) = squeeze line ++ piece := by
  by_cases hline : line = []
  · rw [hline, joinWord_nil, squeeze_of_not_mem h]
    rfl
  · rw [joinWord_of_ne hline, squeeze_append]
    congr 1
    exact squeeze_of_not_mem h

theorem tidy_of_not_mem (h : ' ' ∉ piece) : Tidy piece := by
  refine ⟨fun hhead => h (List.mem_of_head? hhead), fun hlast => h (List.mem_of_getLast? hlast), ?_⟩
  apply List.Pairwise.isChain
  apply List.pairwise_of_forall_mem_list
  intro a _ b hb _ hspace
  exact h (hspace ▸ hb)

theorem Tidy.join (hline : Tidy line) (hne : piece ≠ []) (h : ' ' ∉ piece) : Tidy (joinWord line piece) := by
  by_cases hnil : line = []
  · rw [hnil, joinWord_nil]
    exact tidy_of_not_mem h
  · have hpiece := tidy_of_not_mem h
    rw [joinWord_of_ne hnil]
    refine ⟨?_, ?_, List.isChain_append.mpr ⟨hline.apart, ?_, ?_⟩⟩
    · rw [List.head?_append_of_ne_nil _ hnil]
      exact hline.head
    · rw [List.getLast?_append_cons, List.getLast?_cons_of_ne_nil hne]
      exact hpiece.last
    · refine List.isChain_cons.mpr ⟨?_, hpiece.apart⟩
      intro c hc _ hspace
      exact hpiece.head (hspace ▸ hc)
    · intro a ha b _ hspace
      exact absurd (hspace ▸ ha) hline.last

theorem forall_mem_concat {α : Type} {p : α → Prop} {as : List α} {a : α} :
    (∀ b ∈ as ++ [a], p b) ↔ (∀ b ∈ as, p b) ∧ p a := by
  rw [List.forall_mem_append, List.forall_mem_singleton]

theorem split_concat {α : Type} {as above below : List α} {last a : α}
    (h : as ++ [last] = above ++ a :: below) :
    (as = above ∧ last = a ∧ below = []) ∨ ∃ rest, below = rest ++ [last] ∧ as = above ++ a :: rest := by
  obtain rfl | ⟨rest, b, rfl⟩ := List.eq_nil_or_concat below
  · obtain ⟨rfl, ha⟩ := List.append_inj' h rfl
    exact .inl ⟨rfl, (List.cons.inj ha).1, rfl⟩
  · rw [List.concat_eq_append, ← List.cons_append, ← List.append_assoc] at h
    obtain ⟨rfl, hb⟩ := List.append_inj' h rfl
    exact .inr ⟨rest, by rw [List.concat_eq_append, (List.cons.inj hb).1], rfl⟩

theorem stands_joined (closed : List (List Char)) (line word : List Char) :
    Stands (closed ++ [joinWord line word]) (squeeze (closed.flatten ++ line)) word := by
  by_cases hline : line = []
  · refine ⟨closed, [], [], [], ?_, .inl rfl, .inl rfl, ?_⟩
    · simp [hline]
    · simp [hline]
  · refine ⟨closed, line ++ [' '], [], [], ?_, .inr (by simp), .inl rfl, ?_⟩
    · simp [joinWord_of_ne hline]
    · simp [squeeze]

theorem Stands.append (h : Stands lines before word) (more : List (List Char)) :
    Stands (lines ++ more) before word := by
  obtain ⟨above, left, right, below, rfl, hleft, hright, hbefore⟩ := h
  exact ⟨above, left, right, below ++ more, by simp, hleft, hright, hbefore⟩

theorem Stands.join (h : Stands (closed ++ [line]) before word) (hword : word ≠ []) (piece : List Char) :
    Stands (closed ++ [joinWord line piece]) before word := by
  obtain ⟨above, left, right, below, hlines, hleft, hright, hbefore⟩ := h
  obtain ⟨rfl, rfl, rfl⟩ | ⟨rest, rfl, rfl⟩ := split_concat hlines
  · have hne : left ++ word ++ right ≠ [] := by simp [hword]
    refine ⟨closed, left, right ++ ' ' :: piece, [], ?_, hleft, .inr ?_, hbefore⟩
    · rw [joinWord_of_ne hne, List.append_assoc (left ++ word)]
    · rcases hright with rfl | hright
      · rfl
      · simp [hright]
  · exact Stands.append ⟨above, left, right, rest, rfl, hleft, hright, hbefore⟩ _

end

/-! ## Rounds -/

/-- The lines closed so far, the open line, and what is left of the words. -/
structure Filling where
  closed : List (List Char)
  line : List Char
  left : List (List Char)

namespace Filling

def room (width : Nat) (line : List Char) : Nat :=
  if line = [] then width else width - (line.length + 1)

def next (width : Nat) (s : Filling) : Filling :=
  match s.left with
  | [] => s
  | word :: rest =>
    if (joinWord s.line word).length ≤ width then ⟨s.closed, joinWord s.line word, rest⟩
    else if width < word.length ∧ room width s.line ≠ 0 then
      ⟨s.closed ++ [joinWord s.line (word.take (room width s.line))], [],
        word.drop (room width s.line) :: rest⟩
    else ⟨s.closed ++ [s.line], [], word :: rest⟩

def lines (s : Filling) : List (List Char) :=
  if s.line = [] ∧ s.closed ≠ [] then s.closed else s.closed ++ [s.line]

def filled (width : Nat) (s : Filling) : List (List Char) :=
  fill width s.line s.closed s.left

def work (s : Filling) : Nat :=
  2 * s.left.flatten.length + if s.line = [] then 0 else 1

inductive Round (width : Nat) : Filling → Filling → Prop where
  | place {closed rest : List (List Char)} {line word : List Char}
      (hfits : (joinWord line word).length ≤ width) :
      Round width ⟨closed, line, word :: rest⟩ ⟨closed, joinWord line word, rest⟩
  | cut {closed rest : List (List Char)} {line front back : List Char} (hfront : front ≠ [])
      (hback : back ≠ []) (hlong : width < (front ++ back).length)
      (hfull : (joinWord line front).length = width) :
      Round width ⟨closed, line, (front ++ back) :: rest⟩ ⟨closed ++ [joinWord line front], [], back :: rest⟩
  | close {closed rest : List (List Char)} {line word : List Char} (hline : line ≠ [])
      (hover : width < line.length + 1 + if word.length ≤ width then word.length else 1) :
      Round width ⟨closed, line, word :: rest⟩ ⟨closed ++ [line], [], word :: rest⟩

section
variable {width : Nat} {line word : List Char} {s s' : Filling}

theorem length_joinWord (h : line ≠ []) (word : List Char) :
    (joinWord line word).length = line.length + 1 + word.length := by
  rw [joinWord_of_ne h, List.length_append, List.length_cons]
  omega

theorem length_joinWord_take (hlong : width < word.length) (hroom : room width line ≠ 0) :
    (joinWord line (word.take (room width line))).length = width := by
  by_cases hline : line = []
  · simp only [hline, room, if_true, joinWord_nil, List.length_take]
    omega
  · simp only [room, if_neg hline] at hroom ⊢
    rw [length_joinWord hline, List.length_take]
    omega

theorem round_next (hwidth : 0 < width) (hleft : s.left ≠ []) : Round width s (s.next width) := by
  obtain ⟨closed, line, left⟩ := s
  cases left with
  | nil => exact absurd rfl hleft
  | cons word rest =>
    simp only [next]
    by_cases hfits : (joinWord line word).length ≤ width
    · rw [if_pos hfits]
      exact .place hfits
    rw [if_neg hfits]
    by_cases hcut : width < word.length ∧ room width line ≠ 0
    · obtain ⟨hlong, hroom⟩ := hcut
      have hle : room width line ≤ width := by
        unfold room
        split <;> omega
      rw [if_pos ⟨hlong, hroom⟩]
      have hword := List.take_append_drop (room width line) word
      have hfront : word.take (room width line) ≠ [] := by
        rw [ne_eq, List.take_eq_nil_iff]
        rintro (h | rfl)
        · exact hroom h
        · simp at hlong
      have hback : word.drop (room width line) ≠ [] := by
        rw [ne_eq, List.drop_eq_nil_iff]
        omega
      have hround : Round width ⟨closed, line, (word.take (room width line) ++
          word.drop (room width line)) :: rest⟩ _ :=
        .cut hfront hback (by rwa [hword]) (length_joinWord_take hlong hroom)
      rwa [hword] at hround
    · rw [if_neg hcut]
      by_cases hline : line = []
      · -- an open line without a character has room for any word or for its front
        simp only [hline, joinWord_nil, room, if_true] at hfits hcut
        omega
      · refine .close hline ?_
        rw [length_joinWord hline] at hfits
        simp only [room, if_neg hline] at hcut
        split <;> omega

theorem place_of_fits (h : (joinWord line word).length ≤ width) :
    place width line word = ⟨[], joinWord line word⟩ := by
  rw [place, if_pos h]

theorem place_of_cut (hfits : ¬(joinWord line word).length ≤ width) (hlong : width < word.length)
    (hroom : room width line ≠ 0) : place width line word =
      ⟨joinWord line (word.take (room width line)) :: (place width [] (word.drop (room width line))).closed,
        (place width [] (word.drop (room width line))).current⟩ := by
  rw [place, if_neg hfits, dif_pos hlong]
  exact dif_neg hroom

theorem place_of_close (hfits : ¬(joinWord line word).length ≤ width) (hline : line ≠ [])
    (hcut : ¬(width < word.length ∧ room width line ≠ 0)) : place width line word =
      ⟨line :: (place width [] word).closed, (place width [] word).current⟩ := by
  rw [place, if_neg hfits]
  by_cases hlong : width < word.length
  · have hroom : room width line = 0 := by simpa [hlong] using hcut
    rw [dif_pos hlong]
    exact (dif_pos hroom).trans (dif_neg hline)
  · have hshort : (joinWord [] word).length ≤ width := Nat.le_of_not_lt hlong
    rw [dif_neg hlong, place_of_fits hshort]
    rfl

theorem filled_next (hwidth : 0 < width) (s : Filling) : (s.next width).filled width = s.filled width := by
  obtain ⟨closed, line, left⟩ := s
  cases left with
  | nil => rfl
  | cons word rest =>
    simp only [next, filled]
    by_cases hfits : (joinWord line word).length ≤ width
    · rw [if_pos hfits, fill, place_of_fits hfits, List.append_nil]
    rw [if_neg hfits]
    by_cases hcut : width < word.length ∧ room width line ≠ 0
    · simp only [if_pos hcut, fill, place_of_cut hfits hcut.1 hcut.2, List.append_assoc,
        List.singleton_append]
    · have hline : line ≠ [] := by
        rintro rfl
        simp only [joinWord_nil, room, if_true] at hfits hcut
        omega
      simp only [if_neg hcut, fill, place_of_close hfits hline hcut, List.append_assoc,
        List.singleton_append]

theorem filled_of_done (h : s.left = []) : s.filled width = s.lines := by
  simp only [filled, h, fill, lines, Bool.and_eq_true, decide_eq_true_eq, bne_iff_ne]

theorem work_of_round (h : Round width s s') (hwords : ∀ word ∈ s.left, word ≠ []) :
    s'.work < s.work := by
  cases h with
  | @place closed rest line word hfits =>
    have hword := List.length_pos_iff.mpr (hwords word List.mem_cons_self)
    simp only [work, List.flatten_cons, List.length_append]
    split <;> split <;> omega
  | @cut closed rest line front back hfront hback hlong hfull =>
    have hfront := List.length_pos_iff.mpr hfront
    simp only [work, List.flatten_cons, List.length_append, if_true]
    split <;> omega
  | close hline hover =>
    simp only [work, if_neg hline, if_true]
    omega

end

end Filling

/-! ## What every round keeps -/

/-- Words still to be placed, with the front of the first that was cut off before. -/
def resume (front : List Char) : List (List Char) → List (List Char)
  | [] => []
  | word :: rest => (front ++ word) :: rest

/-- The words `placed` stand in the lines, and behind them the front of the word that is being cut. -/
structure Filled (width : Nat) (ws placed : List (List Char)) (front : List Char) (s : Filling) : Prop where
  fits : ∀ line ∈ s.closed ++ [s.line], line.length ≤ width
  tidy : ∀ line ∈ s.closed ++ [s.line], Tidy line
  used : ∀ line ∈ s.closed, line ≠ []
  begun : s.left = [] → s.line = [] → s.closed = []
  words : ∀ word ∈ ws, word ≠ [] ∧ ' ' ∉ word
  left : ∀ word ∈ s.left, word ≠ []
  rest : ws = placed ++ resume front s.left
  shown : squeeze (s.closed.flatten ++ s.line) = placed.flatten ++ front
  cut : front ≠ [] → s.line = [] ∧ ∃ word rest, s.left = word :: rest ∧ width < (front ++ word).length
  whole : ∀ before word after, placed = before ++ word :: after → word.length ≤ width →
    Stands (s.closed ++ [s.line]) before.flatten word
  closes : ∀ above line below, s.closed = above ++ line :: below → Closes width ws above line

section
variable {width : Nat} {ws placed : List (List Char)} {front : List Char} {s s' : Filling}

theorem filled_start (hwords : ∀ word ∈ ws, word ≠ [] ∧ ' ' ∉ word) : Filled width ws [] [] ⟨[], [], ws⟩ where
  fits := by simp
  tidy := by simpa using tidy_of_not_mem (List.not_mem_nil)
  used := by simp
  begun := fun _ _ => rfl
  words := hwords
  left := fun word hword => (hwords word hword).1
  rest := by cases ws <;> rfl
  shown := rfl
  cut := fun h => absurd rfl h
  whole := by simp
  closes := by simp

theorem closes_concat {closed : List (List Char)} {line : List Char}
    (hclosed : ∀ above l below, closed = above ++ l :: below → Closes width ws above l)
    (hline : Closes width ws closed line) :
    ∀ above l below, closed ++ [line] = above ++ l :: below → Closes width ws above l := by
  intro above l below h
  obtain ⟨rfl, rfl, -⟩ | ⟨rest, -, hsplit⟩ := split_concat h
  · exact hline
  · exact hclosed above l rest hsplit

namespace Filled

theorem place {closed rest : List (List Char)} {line word : List Char}
    (h : Filled width ws placed front ⟨closed, line, word :: rest⟩)
    (hfits : (joinWord line word).length ≤ width) :
    Filled width ws (placed ++ [front ++ word]) [] ⟨closed, joinWord line word, rest⟩ := by
  have hrest : ws = placed ++ (front ++ word) :: rest := h.rest
  have hword : word ≠ [] := h.left word List.mem_cons_self
  have hspace : ' ' ∉ word := by
    intro hmem
    exact (h.words (front ++ word) (by simp [hrest])).2 (List.mem_append_right front hmem)
  obtain ⟨hclosedFits, -⟩ := forall_mem_concat.mp h.fits
  obtain ⟨hclosedTidy, hlineTidy⟩ := forall_mem_concat.mp h.tidy
  refine ⟨?_, ?_, h.used, ?_, h.words, ?_, ?_, ?_, fun hne => absurd rfl hne, ?_, h.closes⟩
  · exact forall_mem_concat.mpr ⟨hclosedFits, hfits⟩
  · exact forall_mem_concat.mpr ⟨hclosedTidy, hlineTidy.join hword hspace⟩
  · intro _ hline
    exact absurd hline (joinWord_ne_nil hword)
  · exact fun w hw => h.left w (List.mem_cons_of_mem word hw)
  · rw [hrest, List.append_assoc]
    cases rest <;> rfl
  · have hshown := h.shown
    simp only [squeeze_append] at hshown
    rw [squeeze_append, squeeze_joinWord hspace, ← List.append_assoc, hshown]
    simp
  · intro before w after hplaced hshort
    obtain ⟨rfl, rfl, -⟩ | ⟨rest', -, hplaced⟩ := split_concat hplaced
    · -- a word with a front that was cut off is longer than a line
      have hfront : front = [] := by
        by_contra hne
        obtain ⟨-, word', rest', hleft, hlong⟩ := h.cut hne
        cases hleft
        omega
      have hbefore : squeeze (closed.flatten ++ line) = placed.flatten := by
        rw [h.shown, hfront, List.append_nil]
      rw [hfront, List.nil_append, ← hbefore]
      exact stands_joined closed line word
    · have hw : w ≠ [] := (h.words w (by simp [hrest, hplaced])).1
      exact (h.whole before w rest' hplaced hshort).join hw word

theorem cutRound {closed rest : List (List Char)} {line start back : List Char}
    (h : Filled width ws placed front ⟨closed, line, (start ++ back) :: rest⟩) (hstart : start ≠ [])
    (hback : back ≠ []) (hlong : width < (start ++ back).length)
    (hfull : (joinWord line start).length = width) :
    Filled width ws placed (front ++ start) ⟨closed ++ [joinWord line start], [], back :: rest⟩ := by
  have hrest : ws = placed ++ (front ++ (start ++ back)) :: rest := h.rest
  have hspace : ' ' ∉ start := by
    intro hmem
    exact (h.words (front ++ (start ++ back)) (by simp [hrest])).2 (by simp [hmem])
  obtain ⟨hclosedFits, -⟩ := forall_mem_concat.mp h.fits
  obtain ⟨hclosedTidy, hlineTidy⟩ := forall_mem_concat.mp h.tidy
  refine ⟨?_, ?_, ?_, fun hnil => absurd hnil (List.cons_ne_nil back rest), h.words, ?_, ?_, ?_, ?_, ?_, ?_⟩
  · have hfits := forall_mem_concat.mpr ⟨hclosedFits, hfull.le⟩
    exact forall_mem_concat.mpr ⟨hfits, Nat.zero_le width⟩
  · have htidy := forall_mem_concat.mpr ⟨hclosedTidy, hlineTidy.join hstart hspace⟩
    exact forall_mem_concat.mpr ⟨htidy, tidy_of_not_mem List.not_mem_nil⟩
  · exact forall_mem_concat.mpr ⟨h.used, joinWord_ne_nil hstart⟩
  · intro w hw
    rcases List.mem_cons.mp hw with rfl | hw
    · exact hback
    · exact h.left w (List.mem_cons_of_mem _ hw)
  · rw [hrest, resume, List.append_assoc]
  · have hshown := h.shown
    simp only [squeeze_append] at hshown
    simp only [List.flatten_append, List.flatten_singleton, List.append_nil, squeeze_append,
      squeeze_joinWord hspace]
    rw [← List.append_assoc, hshown, List.append_assoc]
  · exact fun _ => ⟨rfl, back, rest, rfl, by simp only [List.length_append] at hlong ⊢; omega⟩
  · intro before w after hplaced hshort
    have hw : w ≠ [] := (h.words w (by simp [hrest, hplaced])).1
    exact ((h.whole before w after hplaced hshort).join hw start).append [[]]
  · exact closes_concat h.closes (.inl hfull)

theorem close {closed rest : List (List Char)} {line word : List Char}
    (h : Filled width ws placed front ⟨closed, line, word :: rest⟩) (hline : line ≠ [])
    (hover : width < line.length + 1 + if word.length ≤ width then word.length else 1) :
    Filled width ws placed front ⟨closed ++ [line], [], word :: rest⟩ := by
  -- the open line is empty while a word is being cut
  have hfront : front = [] := by
    by_contra hne
    exact hline (h.cut hne).1
  subst hfront
  refine ⟨?_, ?_, ?_, fun hnil => absurd hnil (List.cons_ne_nil word rest), h.words, h.left, h.rest, ?_,
    fun hne => absurd rfl hne, ?_, ?_⟩
  · exact forall_mem_concat.mpr ⟨h.fits, Nat.zero_le width⟩
  · exact forall_mem_concat.mpr ⟨h.tidy, tidy_of_not_mem List.not_mem_nil⟩
  · exact forall_mem_concat.mpr ⟨h.used, hline⟩
  · have hshown := h.shown
    simpa using hshown
  · intro before w after hplaced hshort
    exact (h.whole before w after hplaced hshort).append [[]]
  · refine closes_concat h.closes (.inr ⟨placed, word, rest, h.rest, ?_, hover⟩)
    rw [h.shown, List.append_nil]

theorem round (h : Filled width ws placed front s) (hround : Filling.Round width s s') :
    ∃ placed front, Filled width ws placed front s' := by
  cases hround with
  | place hfits => exact ⟨_, _, h.place hfits⟩
  | cut hfront hback hlong hfull => exact ⟨_, _, h.cutRound hfront hback hlong hfull⟩
  | close hline hover => exact ⟨_, _, h.close hline hover⟩

theorem done (h : Filled width ws placed front s) (hleft : s.left = []) (n : Nat) :
    let last := (Filling.next width)^[n] s
    last.left = [] ∧ last.lines = s.filled width ∧ ∃ placed front, Filled width ws placed front last := by
  have hstill : s.next width = s := by simp only [Filling.next, hleft]
  rw [Function.iterate_fixed hstill]
  exact ⟨hleft, (Filling.filled_of_done hleft).symm, placed, front, h⟩

/-- After as many rounds as `work` counts every word is placed. -/
theorem run (hwidth : 0 < width) (h : Filled width ws placed front s) {n : Nat} (hn : s.work ≤ n) :
    let last := (Filling.next width)^[n] s
    last.left = [] ∧ last.lines = s.filled width ∧ ∃ placed front, Filled width ws placed front last := by
  induction n generalizing s placed front with
  | zero =>
    refine h.done ?_ 0
    by_contra hleft
    have hless := Filling.work_of_round (Filling.round_next hwidth hleft) h.left
    omega
  | succ n ih =>
    by_cases hleft : s.left = []
    · exact h.done hleft (n + 1)
    · have hround := Filling.round_next hwidth hleft
      obtain ⟨placed', front', h'⟩ := h.round hround
      have hless := Filling.work_of_round hround h.left
      rw [Function.iterate_succ_apply, ← Filling.filled_next hwidth]
      exact ih h' (by omega)

theorem lines_eq (h : Filled width ws placed front s) (hleft : s.left = []) :
    s.lines = s.closed ++ [s.line] := by
  refine if_neg ?_
  rintro ⟨hline, hclosed⟩
  exact hclosed (h.begun hleft hline)

theorem front_eq_nil (h : Filled width ws placed front s) (hleft : s.left = []) : front = [] := by
  by_contra hne
  obtain ⟨-, word, rest, hword, -⟩ := h.cut hne
  rw [hleft] at hword
  cases hword

theorem placed_eq (h : Filled width ws placed front s) (hleft : s.left = []) : placed = ws := by
  rw [h.rest, hleft, resume, List.append_nil]

theorem squeeze_lines (h : Filled width ws placed front s) (hleft : s.left = []) :
    squeeze s.lines.flatten = ws.flatten := by
  have hshown := h.shown
  rw [h.front_eq_nil hleft, h.placed_eq hleft, List.append_nil] at hshown
  rw [h.lines_eq hleft, ← hshown]
  simp

theorem line_ne_nil (h : Filled width ws placed front s) (hleft : s.left = []) (hws : ws ≠ []) :
    s.line ≠ [] := by
  intro hline
  have hlines := h.squeeze_lines hleft
  rw [h.lines_eq hleft, h.begun hleft hline, hline] at hlines
  obtain ⟨word, rest, rfl⟩ := List.exists_cons_of_ne_nil hws
  have hword := (h.words word List.mem_cons_self).1
  exact hword (List.append_eq_nil_iff.mp hlines.symm).1

end Filled

end

/-! ## Wrapped text -/

theorem toList_wrap (width : Nat) (text : String) :
    (wrap width text).map String.toList = fill width [] [] (words text.toList) := by
  simp [wrap]

theorem space_not_mem_words {word cs : List Char} (h : word ∈ words cs) : ' ' ∉ word := by
  intro hspace
  have hblank := (mem_words h).2 ' ' hspace
  cases hblank

/-- The loop that fills lines ends: after two rounds for each character of the words nothing is left. No
line is longer than the width, none is empty unless the text has no words, and none has a space too many.
The lines show the text without its white space; a word that is no longer than a line stands whole, in
its place; and a line is closed only where it is full or where the next piece of the text does not fit. -/
theorem wrap_fills_lines {width : Nat} (hwidth : 1 ≤ width) (text : String) :
    let ws := pieces text.toList
    let lines := (wrap width text).map String.toList
    let last := (Filling.next width)^[2 * ws.flatten.length] ⟨[], [], ws⟩
    (last.left = [] ∧ last.lines = lines) ∧
    (∀ line ∈ lines, line.length ≤ width) ∧
    (ws = [] → lines = [[]]) ∧ (ws ≠ [] → ∀ line ∈ lines, line ≠ []) ∧
    (∀ line ∈ lines, Tidy line) ∧
    squeeze lines.flatten = text.toList.filter (fun c => !isBlank c) ∧
    (∀ before word after, ws = before ++ word :: after → word.length ≤ width →
      Stands lines before.flatten word) ∧
    ∀ above line below, lines = above ++ line :: below → below ≠ [] → Closes width ws above line := by
  intro ws lines last
  have hws : words text.toList = ws := words_eq_pieces _
  have hwords : ∀ word ∈ ws, word ≠ [] ∧ ' ' ∉ word := by
    rw [← hws]
    exact fun word hword => ⟨(mem_words hword).1, space_not_mem_words hword⟩
  have hstart : Filled width ws [] [] ⟨[], [], ws⟩ := filled_start hwords
  obtain ⟨hleft, hlast, placed, front, h⟩ := hstart.run hwidth (n := 2 * ws.flatten.length) (Nat.le_refl _)
  have hlast : last.lines = lines := by
    rw [show lines = fill width [] [] ws from hws ▸ toList_wrap width text]
    exact hlast
  have hlines : lines = last.closed ++ [last.line] := by rw [← hlast, h.lines_eq hleft]
  obtain rfl : placed = ws := h.placed_eq hleft
  refine ⟨⟨hleft, hlast⟩, ?_, ?_, ?_, ?_, ?_, ?_, ?_⟩
  · rw [hlines]
    exact h.fits
  · intro hnil
    rw [← hws] at hnil
    rw [show lines = fill width [] [] [] from hnil ▸ toList_wrap width text]
    rfl
  · intro hne
    rw [hlines]
    exact forall_mem_concat.mpr ⟨h.used, h.line_ne_nil hleft hne⟩
  · rw [hlines]
    exact h.tidy
  · rw [← hlast, h.squeeze_lines hleft, ← hws, flatten_words]
  · rw [hlines]
    exact h.whole
  · intro above line below hsplit hbelow
    rw [hlines] at hsplit
    obtain ⟨-, -, hnil⟩ | ⟨rest, -, hclosed⟩ := split_concat hsplit
    · exact absurd hnil hbelow
    · exact h.closes above line rest hclosed

/-- A long word begins on the line that is open, and what is left of it shares a line with the next word. -/
theorem wrap_fills_lines_cut :
    let text := "ab  cdefghi\tj"
    let lines := ["ab c".toList, "defg".toList, "hi j".toList]
    1 ≤ 4 ∧ (wrap 4 text).map String.toList = lines ∧
    Stands lines "abcdefghi".toList ['j'] ∧ Closes 4 (pieces text.toList) ["ab c".toList] "defg".toList := by
  intro text lines
  have hpieces : pieces text.toList = [['a', 'b'], "cdefghi".toList, ['j']] := by decide
  obtain ⟨⟨-, hlast⟩, -, -, -, -, -, hwhole, hcloses⟩ := wrap_fills_lines (show 1 ≤ 4 by decide) text
  have hlines : (wrap 4 text).map String.toList = lines := by
    rw [← hlast, hpieces]
    decide
  rw [hlines] at hwhole hcloses
  refine ⟨by decide, hlines, ?_, ?_⟩
  · exact hwhole [['a', 'b'], "cdefghi".toList] ['j'] [] hpieces (by decide)
  · exact hcloses ["ab c".toList] "defg".toList ["hi j".toList] rfl (by decide)

end ActorHub.Text
