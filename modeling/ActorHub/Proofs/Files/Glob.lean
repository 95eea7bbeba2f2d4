import ActorHub.Files.Pattern
import ActorHub.Proofs.Text.Split
import Mathlib.Data.List.Basic

/-!
# Directories in paths and patterns

A path that ends in a name leads to the entry of that name in the directory before it (`find?_join`). A
pattern that ends in `*.json` leads to the entries of that directory whose names end so, if the pattern
leads to the directory at all (`mem_globText_join`): an empty step behind nothing but dots leads nowhere.
-/

namespace ActorHub

namespace Files

/-! ## Directories -/

def steps (dir : String) : List String :=
  if dir.isEmpty then []
  else if dir.toList.getLast? == some '/' then (Text.split '/' dir).dropLast
  else Text.split '/' dir

def origin (path : String) : List String :=
  if isAbsolute path then outside else []

/-- The place that the steps of a directory lead to, whether or not there is an entry. -/
def place? (fs : Files) (dir : String) : Option (List String) :=
  (steps dir).foldlM fs.enter (origin dir)

section
variable {dir name : String}

theorem isEmpty_iff {s : String} : s.isEmpty = true ↔ s.toList = [] := by
  rw [String.isEmpty_iff, ← String.toList_inj]
  rfl

theorem isAbsolute_eq_false (hname : '/' ∉ name.toList) : isAbsolute name = false := by
  unfold isAbsolute
  cases hcs : name.toList with
  | nil => rfl
  | cons c cs =>
    have hc : c ≠ '/' := by
      rintro rfl
      exact hname (hcs ▸ List.mem_cons_self)
    simpa using hc

theorem split_join (dir : String) (hname : '/' ∉ name.toList) :
    Text.split '/' (join dir name) = steps dir ++ [name] := by
  have hsingle : Text.splitChars '/' name.toList = [name.toList] := Text.splitChars_of_not_mem hname
  unfold join steps Text.split
  rw [isAbsolute_eq_false hname, Bool.false_or]
  split
  · simp [hsingle]
  split
  · next hlast =>
    obtain ⟨front, hfront⟩ : ∃ front, dir.toList = front ++ ['/'] :=
      List.getLast?_eq_some_iff.mp (beq_iff_eq.mp hlast)
    rw [String.toList_append, hfront, List.append_assoc, List.singleton_append, Text.splitChars_append,
      Text.splitChars_append, hsingle]
    simp [Text.splitChars]
  · rw [String.toList_append, String.toList_append, List.append_assoc]
    show List.map _ (Text.splitChars '/' (dir.toList ++ '/' :: name.toList)) = _
    rw [Text.splitChars_append, hsingle]
    simp

theorem isAbsolute_join (dir : String) (hname : '/' ∉ name.toList) :
    isAbsolute (join dir name) = isAbsolute dir := by
  unfold join
  rw [isAbsolute_eq_false hname, Bool.false_or]
  split
  · next hempty =>
    rw [isAbsolute_eq_false hname, isAbsolute, isEmpty_iff.mp hempty]
    rfl
  · next hempty =>
    have hhead (s : String) : isAbsolute (dir ++ s) = isAbsolute dir := by
      unfold isAbsolute
      rw [String.toList_append, List.head?_append_of_ne_nil _ (mt isEmpty_iff.mpr hempty)]
    split
    · exact hhead name
    · rw [String.append_assoc]
      exact hhead _

theorem mem_of_mem_steps {step : String} {c : Char} (hstep : step ∈ steps dir)
    (hc : c ∈ step.toList) : c ∈ dir.toList := by
  have hsplit : ∀ s ∈ Text.split '/' dir, ∀ c ∈ s.toList, c ∈ dir.toList := by
    intro s hs c hc
    obtain ⟨part, hpart, rfl⟩ := List.mem_map.mp hs
    rw [String.toList_ofList] at hc
    exact Text.mem_of_mem_splitChars hpart hc
  unfold steps at hstep
  split at hstep
  · cases hstep
  split at hstep
  · exact hsplit step ((List.dropLast_sublist _).subset hstep) c hc
  · exact hsplit step hstep c hc

theorem join_ne_empty (dir : String) (hname : '/' ∉ name.toList) (hne : name ≠ "") :
    (join dir name).isEmpty = false := by
  rw [Bool.eq_false_iff, Ne, isEmpty_iff]
  intro hnil
  have hsplit := split_join dir hname
  rw [Text.split, hnil] at hsplit
  have hlast := congrArg List.getLast? hsplit
  rw [List.getLast?_concat] at hlast
  exact hne (Option.some_inj.mp hlast).symm

theorem resolve_join (fs : Files) (dir : String) (hname : '/' ∉ name.toList) (hne : name ≠ "") :
    fs.resolve (join dir name) = (fs.place? dir).bind (fs.enter · name) := by
  unfold resolve
  rw [join_ne_empty dir hname hne, split_join dir hname, List.foldlM_append]
  simp only [isAbsolute_join dir hname, List.foldlM_cons, List.foldlM_nil, bind_pure]
  rfl

/-! ## Names in a directory -/

structure IsEntryName (name : String) : Prop where
  noSlash : '/' ∉ name.toList
  not_dots : name ≠ "" ∧ name ≠ "." ∧ name ≠ ".."

section
variable {fs : Files} {place : List String}

theorem enter_eq_some_iff (h : name ≠ "" ∧ name ≠ "." ∧ name ≠ "..") {next : List String} :
    fs.enter place name = some next ↔ fs.isDirectory place = true ∧ next = place ++ [name] := by
  unfold enter
  cases fs.isDirectory place <;> simp [h, eq_comm]

theorem mem_children_iff : name ∈ fs.children place ↔ ∃ e, (place ++ [name], e) ∈ fs.entries := by
  unfold children
  rw [List.mem_filterMap]
  constructor
  · rintro ⟨⟨path, e⟩, hmem, hname⟩
    simp only [Option.ite_none_right_eq_some] at hname
    obtain ⟨rfl, hlast⟩ := hname
    rw [List.dropLast_append_getLast? _ hlast]
    exact ⟨e, hmem⟩
  · rintro ⟨e, hmem⟩
    exact ⟨_, hmem, by simp⟩

theorem entry?_isSome_iff (hname : name ≠ "..") :
    (fs.entry? (place ++ [name])).isSome = true ↔ name ∈ fs.children place := by
  have hout : place ++ [name] ≠ outside := by
    intro h
    have hlast := congrArg List.getLast? h
    rw [List.getLast?_concat] at hlast
    exact hname (Option.some_inj.mp hlast)
  unfold entry?
  rw [if_neg (by simp [hout]), List.lookup_isSome_iff, mem_children_iff]
  constructor
  · rintro ⟨⟨path, e⟩, hmem, hpath⟩
    exact ⟨e, beq_iff_eq.mp hpath ▸ hmem⟩
  · rintro ⟨e, hmem⟩
    exact ⟨_, hmem, beq_self_eq_true _⟩

theorem find?_join_isSome_iff (h : IsEntryName name) : (fs.find? (join dir name)).isSome = true ↔
    ∃ place, fs.place? dir = some place ∧ fs.isDirectory place = true ∧ name ∈ fs.children place := by
  unfold find?
  rw [resolve_join fs dir h.noSlash h.not_dots.1, Option.isSome_iff_exists]
  simp only [Option.bind_eq_some_iff, enter_eq_some_iff h.not_dots]
  constructor
  · rintro ⟨e, next, ⟨place, hplace, hdir, rfl⟩, he⟩
    exact ⟨place, hplace, hdir, (entry?_isSome_iff h.not_dots.2.2).mp (Option.isSome_of_eq_some he)⟩
  · rintro ⟨place, hplace, hdir, hname⟩
    obtain ⟨e, he⟩ := Option.isSome_iff_exists.mp ((entry?_isSome_iff h.not_dots.2.2).mpr hname)
    exact ⟨e, _, ⟨place, hplace, hdir, rfl⟩, he⟩

end

end

end Files

/-! ## Patterns in steps -/

namespace Wildcard

/-- None of the characters has a meaning of its own in a pattern. -/
def AllPlain (cs : List Char) : Prop :=
  ∀ c ∈ cs, c ≠ '*' ∧ c ≠ '?' ∧ c ≠ '['

instance (cs : List Char) : Decidable (AllPlain cs) :=
  List.decidableBAll (fun c => c ≠ '*' ∧ c ≠ '?' ∧ c ≠ '[') cs

theorem ofChars?_plain {cs : List Char} (h : AllPlain cs) : ofChars? cs = some (cs.map char) := by
  induction cs with
  | nil => rw [ofChars?]; rfl
  | cons c cs ih =>
    obtain ⟨hc, hcs⟩ := List.forall_mem_cons.mp h
    rw [ofChars?, ih hcs]
    · rfl
    · exact hc.2.1
    · exact fun _ hstar _ => hc.1 hstar
    · exact hc.1
    · exact fun _ hbracket _ => hc.2.2 hbracket
    · exact hc.2.2

theorem matchesAll_chars (cs text : List Char) : matchesAll (cs.map char) text = true ↔ text = cs := by
  induction cs generalizing text with
  | nil => cases text <;> simp [matchesAll]
  | cons c cs ih =>
    cases text with
    | nil => simp [matchesAll]
    | cons d text => simp [matchesAll, accepts, ih]

theorem matchesAll_anyText (cs text : List Char) :
    matchesAll (anyText :: cs.map char) text = true ↔ cs <:+ text := by
  induction text with
  | nil => rw [matchesAll, matchesAll_chars, List.suffix_nil, eq_comm]
  | cons d text ih =>
    rw [matchesAll, Bool.or_eq_true, matchesAll_chars, ih, List.suffix_cons_iff, eq_comm]

end Wildcard

namespace PatternStep

open Wildcard (AllPlain)

theorem ofText?_plain {s : String} (h : AllPlain s.toList) : ofText? s = some (.name s) := by
  have hstars : s ≠ "**" := by
    rintro rfl
    exact (h '*' (by decide)).1 rfl
  unfold ofText?
  rw [if_neg hstars, Wildcard.ofChars?_plain h]
  simp [Wildcard.isChar]

theorem mapM_ofText?_plain {names : List String} (h : ∀ name ∈ names, AllPlain name.toList) :
    names.mapM ofText? = some (names.map .name) := by
  induction names with
  | nil => rfl
  | cons name names ih =>
    obtain ⟨hname, hnames⟩ := List.forall_mem_cons.mp h
    rw [List.mapM_cons, ofText?_plain hname, ih hnames]
    rfl

def anyJson : PatternStep :=
  .wild (.anyText :: ".json".toList.map .char)

theorem ofText?_anyJson : ofText? "*.json" = some anyJson := by
  have hplain : AllPlain ".json".toList := by decide
  have hchars : Wildcard.ofChars? "*.json".toList =
      (Wildcard.ofChars? ".json".toList).map (Wildcard.anyText :: ·) := by
    show Wildcard.ofChars? ('*' :: ".json".toList) = _
    rw [Wildcard.ofChars?]
    rintro tail ⟨⟩
  unfold ofText?
  rw [if_neg (by decide), hchars, Wildcard.ofChars?_plain hplain]
  rfl

end PatternStep

namespace Files

/-- A pattern leads to the directory: no empty step stands behind nothing but dots at its front. -/
def IsSearched (dir : String) : Prop :=
  isAbsolute dir = true ∨ ((steps dir).dropWhile (· = ".")).head? ≠ some ""

section
variable (fs : Files)

theorem isDirectory_of_missing {place : List String} (h : fs.entry? place = none) :
    fs.isDirectory place = false := by
  rw [isDirectory, h]
  rfl

theorem enter?_of_missing {s : Spot} (h : fs.entry? s.place = none) (name : String) :
    s.enter? fs name = none := by
  unfold Spot.enter? enter
  simp [isDirectory_of_missing fs h]

theorem glob_names (names : List String) (ws : List Wildcard) (s : Spot) :
    fs.glob false (names.map .name ++ [.wild ws]) s =
      match names.foldlM (Spot.enter? fs) s with
      | some t => fs.glob false [.wild ws] t
      | none => [] := by
  induction names generalizing s with
  | nil => rfl
  | cons name names ih =>
    rw [List.map_cons, List.cons_append, glob, List.foldlM_cons]
    cases hnext : s.enter? fs name with
    | none => rfl
    | some next =>
      simp only [Option.bind_eq_bind, Option.bind_some]
      split
      · exact ih next
      · next hmissing =>
        -- nothing is behind what is not there
        rw [Option.not_isSome_iff_eq_none] at hmissing
        cases names with
        | nil => simp [glob, isDirectory_of_missing fs hmissing]
        | cons name' names => simp [enter?_of_missing fs hmissing]

theorem foldlM_enter? (names : List String) (place : List String) (isStart : Bool) :
    (names.foldlM (Spot.enter? fs) ⟨place, isStart⟩).map Spot.place =
      if isStart = true ∧ (names.dropWhile (· = ".")).head? = some "" then none
      else names.foldlM fs.enter place := by
  induction names generalizing place isStart with
  | nil => simp
  | cons name names ih =>
    rw [List.foldlM_cons, List.foldlM_cons, Spot.enter?]
    cases hplace : fs.enter place name with
    | none => simp
    | some next =>
      cases isStart with
      | false => simpa using ih next false
      | true =>
        by_cases hempty : name = ""
        · simp [hempty]
        by_cases hdot : name = "."
        · simpa [hdot] using ih next true
        · simpa [hempty, hdot] using ih next false

theorem not_dots_of_json {name : String} (h : ".json".toList <:+ name.toList) :
    name ≠ "" ∧ name ≠ "." ∧ name ≠ ".." := by
  refine ⟨?_, ?_, ?_⟩ <;>
    · rintro rfl
      exact absurd h.length_le (by decide)

theorem mem_glob_anyJson (s : Spot) {path : List String} :
    path ∈ fs.glob false [PatternStep.anyJson] s ↔ fs.isDirectory s.place = true ∧
      ∃ name ∈ fs.children s.place, ".json".toList <:+ name.toList ∧ path = s.place ++ [name] := by
  unfold PatternStep.anyJson glob
  cases hdir : fs.isDirectory s.place with
  | false => simp
  | true =>
    have hdots : dotNames (.anyText :: ".json".toList.map .char) = [] := rfl
    have henter {name : String} (h : ".json".toList <:+ name.toList) :
        s.enter? fs name = some ⟨s.place ++ [name], false⟩ := by
      obtain ⟨hne, hdot, hdots⟩ := not_dots_of_json h
      simp [Spot.enter?, enter, hdir, hne, hdot, hdots]
    simp only [hdots, List.append_nil, List.mem_flatMap, List.mem_filter, Wildcard.matchesAll_anyText,
      if_true, true_and, and_assoc]
    refine exists_congr fun name => and_congr_right fun _ => and_congr_right fun h => ?_
    simp [henter h, glob]

/-- The pattern of definitions in a directory leads to the entries there whose names end in `.json`. -/
theorem mem_globText_join {dir : String} (hdir : Wildcard.AllPlain dir.toList) {path : List String} :
    path ∈ fs.globText (join dir "*.json") ↔
      IsSearched dir ∧ ∃ place, fs.place? dir = some place ∧ fs.isDirectory place = true ∧
        ∃ name ∈ fs.children place, ".json".toList <:+ name.toList ∧ path = place ++ [name] := by
  have hslash : '/' ∉ "*.json".toList := by decide
  have hpattern : (Text.split '/' (join dir "*.json")).mapM PatternStep.ofText? =
      some ((steps dir).map .name ++ [PatternStep.anyJson]) := by
    have hsteps : ∀ step ∈ steps dir, Wildcard.AllPlain step.toList :=
      fun step hstep c hc => hdir c (mem_of_mem_steps hstep hc)
    rw [split_join dir hslash, List.mapM_append, PatternStep.mapM_ofText?_plain hsteps]
    simp [PatternStep.ofText?_anyJson]
  have hstart : (if isAbsolute (join dir "*.json") then ⟨outside, false⟩ else ⟨[], true⟩ : Spot) =
      ⟨origin dir, !isAbsolute dir⟩ := by
    rw [isAbsolute_join dir hslash, origin]
    cases isAbsolute dir <;> rfl
  unfold globText
  simp only [hpattern, hstart]
  rw [PatternStep.anyJson, glob_names, ← PatternStep.anyJson]
  have hfold := foldlM_enter? fs (steps dir) (origin dir) (!isAbsolute dir)
  by_cases hsearched : IsSearched dir
  · have hwhole : ¬((!isAbsolute dir) = true ∧ ((steps dir).dropWhile (· = ".")).head? = some "") := by
      rintro ⟨hrelative, hempty⟩
      obtain habsolute | hne := hsearched
      · simp [habsolute] at hrelative
      · exact hne hempty
    rw [if_neg hwhole] at hfold
    rw [place?, ← hfold]
    cases (steps dir).foldlM (Spot.enter? fs) ⟨origin dir, !isAbsolute dir⟩ with
    | none => simp
    | some s => simp [mem_glob_anyJson, hsearched]
  · have hblocked : (!isAbsolute dir) = true ∧ ((steps dir).dropWhile (· = ".")).head? = some "" := by
      simpa [IsSearched] using hsearched
    rw [if_pos hblocked, Option.map_eq_none_iff] at hfold
    simp [hfold, hsearched]

end

end Files

end ActorHub
