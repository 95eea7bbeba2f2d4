import ActorHub.Dictionary.SearchPath
import ActorHub.Proofs.Files.Glob
import Mathlib.Data.List.Sort
import Mathlib.Data.String.Basic

/-!
# Names listed along a search path

A name is listed if a directory holds an entry of that name with the extension `json`, whatever kind of
entry it is, and it is found if one of them holds a file of that name (`available_lists_entries`). The two
agree where all such entries are files with a name before the extension.
-/

namespace ActorHub.SearchPath

open Files (IsSearched IsEntryName)

/-! ## File names -/

section
variable {n name : String}

theorem toList_fileName (n : String) : (fileName n).toList = n.toList ++ ".json".toList :=
  String.toList_append

theorem json_suffix_iff : ".json".toList <:+ name.toList ↔ ∃ n, name = fileName n := by
  constructor
  · rintro ⟨cs, hcs⟩
    refine ⟨String.ofList cs, ?_⟩
    rw [← String.toList_inj, toList_fileName, String.toList_ofList, hcs]
  · rintro ⟨n, rfl⟩
    exact ⟨n.toList, (toList_fileName n).symm⟩

/-- The extension is taken off a file name, unless nothing stands before it. -/
theorem stem_fileName (n : String) : stem (fileName n) = if n = "" then ".json" else n := by
  have hreversed : (fileName n).toList.reverse = ['n', 'o', 's', 'j'] ++ '.' :: n.toList.reverse := by
    rw [toList_fileName, List.reverse_append]
    rfl
  have htaken : (['n', 'o', 's', 'j'] ++ '.' :: n.toList.reverse).takeWhile (· != '.') =
      ['n', 'o', 's', 'j'] := rfl
  have hdropped : (['n', 'o', 's', 'j'] ++ '.' :: n.toList.reverse).drop ['n', 'o', 's', 'j'].length =
      '.' :: n.toList.reverse := rfl
  unfold stem
  simp only [hreversed, htaken, hdropped]
  cases hcs : n.toList.reverse with
  | nil =>
    obtain rfl : n = "" := String.toList_inj.mp (List.reverse_eq_nil_iff.mp hcs)
    rfl
  | cons c cs =>
    have hn : n ≠ "" := by
      rintro rfl
      cases hcs
    rw [if_neg hn]
    show String.ofList (c :: cs).reverse = n
    rw [← hcs, List.reverse_reverse, String.ofList_toList]

theorem isEntryName_fileName (h : '/' ∉ n.toList) : IsEntryName (fileName n) where
  noSlash := by
    rw [toList_fileName, List.mem_append, not_or]
    exact ⟨h, by decide⟩
  not_dots := Files.not_dots_of_json ⟨n.toList, (toList_fileName n).symm⟩

end

/-! ## Sorted names -/

theorem mem_sortNames {n : String} {names : List String} : n ∈ sortNames names ↔ n ∈ names := by
  unfold sortNames
  rw [List.mem_eraseDups, List.mem_mergeSort]

theorem pairwise_eraseDups : ∀ names : List String, names.Pairwise (· ≤ ·) →
    names.eraseDups.Pairwise (· < ·)
  | [], _ => .nil
  | n :: names, h => by
    obtain ⟨hn, hnames⟩ := List.pairwise_cons.mp h
    rw [List.eraseDups_cons, List.pairwise_cons]
    refine ⟨fun m hm => ?_, pairwise_eraseDups _ (hnames.filter _)⟩
    rw [List.mem_eraseDups, List.mem_filter] at hm
    have hne : n ≠ m := by
      rintro rfl
      simp at hm
    exact lt_of_le_of_ne (hn m hm.1) hne
termination_by names => names.length
decreasing_by exact Nat.lt_succ_of_le (List.length_filter_le _ _)

theorem pairwise_sortNames (names : List String) : (sortNames names).Pairwise (· < ·) :=
  pairwise_eraseDups _ (List.pairwise_mergeSort' (· ≤ ·) names)

/-! ## Listed and found -/

/-- The directory has an entry of the file name of a definition, of whatever kind. -/
def Holds (fs : Files) (dir n : String) : Prop :=
  (fs.find? (Files.join dir (fileName n))).isSome = true

instance (fs : Files) (dir n : String) : Decidable (Holds fs dir n) :=
  inferInstanceAs (Decidable (_ = true))

section
variable {dirs : SearchPath} {fs : Files} {n : String}

theorem mem_available (hdirs : ∀ dir ∈ dirs, Wildcard.AllPlain dir.toList) :
    n ∈ dirs.available fs ↔ ∃ dir ∈ dirs, IsSearched dir ∧ ∃ place, fs.place? dir = some place ∧
      fs.isDirectory place = true ∧ ∃ m, fileName m ∈ fs.children place ∧ n = stem (fileName m) := by
  unfold available
  rw [mem_sortNames, List.mem_filterMap]
  simp only [List.mem_flatMap]
  constructor
  · rintro ⟨path, ⟨dir, hdir, hpath⟩, hn⟩
    obtain ⟨hsearched, place, hplace, hisdir, name, hname, hjson, rfl⟩ :=
      (Files.mem_globText_join fs (hdirs dir hdir)).mp hpath
    obtain ⟨m, rfl⟩ := json_suffix_iff.mp hjson
    rw [List.getLast?_concat, Option.map_some, Option.some_inj] at hn
    exact ⟨dir, hdir, hsearched, place, hplace, hisdir, m, hname, hn.symm⟩
  · rintro ⟨dir, hdir, hsearched, place, hplace, hisdir, m, hm, rfl⟩
    refine ⟨place ++ [fileName m], ⟨dir, hdir, ?_⟩, ?_⟩
    · exact (Files.mem_globText_join fs (hdirs dir hdir)).mpr
        ⟨hsearched, place, hplace, hisdir, _, hm, json_suffix_iff.mpr ⟨m, rfl⟩, rfl⟩
    · rw [List.getLast?_concat, Option.map_some]

theorem mem_available_iff (hdirs : ∀ dir ∈ dirs, Wildcard.AllPlain dir.toList) (hn : '/' ∉ n.toList) :
    n ∈ dirs.available fs ↔ ∃ dir ∈ dirs, IsSearched dir ∧
      (n ≠ "" ∧ Holds fs dir n ∨ n = ".json" ∧ Holds fs dir "") := by
  rw [mem_available hdirs]
  refine exists_congr fun dir => and_congr_right fun _ => and_congr_right fun _ => ?_
  rw [Holds, Holds, Files.find?_join_isSome_iff (isEntryName_fileName hn),
    Files.find?_join_isSome_iff (isEntryName_fileName (by decide))]
  constructor
  · rintro ⟨place, hplace, hisdir, m, hm, rfl⟩
    rw [stem_fileName]
    by_cases hempty : m = ""
    · subst hempty
      exact .inr ⟨rfl, place, hplace, hisdir, hm⟩
    · rw [if_neg hempty]
      exact .inl ⟨hempty, place, hplace, hisdir, hm⟩
  · rintro (⟨hne, place, hplace, hisdir, hm⟩ | ⟨rfl, place, hplace, hisdir, hm⟩)
    · exact ⟨place, hplace, hisdir, n, hm, by rw [stem_fileName, if_neg hne]⟩
    · exact ⟨place, hplace, hisdir, "", hm, rfl⟩

theorem isFile_iff {path : String} :
    fs.isFile path = true ↔ ∃ content, fs.find? path = some (.file content) := by
  unfold Files.isFile Files.content?
  split
  · next content hcontent => simp [hcontent]
  · next hnone => simpa using hnone

theorem locate_isSome_iff : (dirs.locate fs n).isSome = true ↔
    ∃ dir ∈ dirs, ∃ content, fs.find? (Files.join dir (fileName n)) = some (.file content) := by
  unfold locate
  simp only [List.find?_isSome, List.mem_map, isFile_iff]
  constructor
  · rintro ⟨_, ⟨dir, hdir, rfl⟩, hcontent⟩
    exact ⟨dir, hdir, hcontent⟩
  · rintro ⟨dir, hdir, hcontent⟩
    exact ⟨_, ⟨dir, hdir, rfl⟩, hcontent⟩

end

/-- For every tree and every search path without pattern characters, the list is sorted and has each name
once. A name is on it just if a directory that the pattern leads to holds an entry of its file name, a
directory or a file; an entry that is only the extension counts for the name `.json`. It is found just if
a directory holds a file of its file name, whether or not it can be read. So a name is listed just if it is
found where all directories are led to, none holds an entry that is only the extension and none a directory
in place of the file. -/
theorem available_lists_entries (dirs : SearchPath) (fs : Files)
    (hdirs : ∀ dir ∈ dirs, Wildcard.AllPlain dir.toList) :
    (dirs.available fs).Pairwise (· < ·) ∧
    ∀ n : String, '/' ∉ n.toList →
      (n ∈ dirs.available fs ↔ ∃ dir ∈ dirs, IsSearched dir ∧
        (n ≠ "" ∧ Holds fs dir n ∨ n = ".json" ∧ Holds fs dir "")) ∧
      ((dirs.locate fs n).isSome = true ↔
        ∃ dir ∈ dirs, ∃ content, fs.find? (Files.join dir (fileName n)) = some (.file content)) ∧
      ((∀ dir ∈ dirs, IsSearched dir ∧ ¬Holds fs dir "" ∧
          fs.find? (Files.join dir (fileName n)) ≠ some .directory) →
        (n ∈ dirs.available fs ↔ (dirs.locate fs n).isSome = true)) := by
  refine ⟨pairwise_sortNames _, fun n hn => ?_⟩
  refine ⟨mem_available_iff hdirs hn, locate_isSome_iff, fun horderly => ?_⟩
  rw [mem_available_iff hdirs hn, locate_isSome_iff]
  constructor
  · rintro ⟨dir, hdir, -, ⟨-, hholds⟩ | ⟨-, hholds⟩⟩
    · obtain ⟨e, he⟩ := Option.isSome_iff_exists.mp hholds
      cases e with
      | directory => exact absurd he (horderly dir hdir).2.2
      | file content => exact ⟨dir, hdir, content, he⟩
    · exact absurd hholds (horderly dir hdir).2.1
  · rintro ⟨dir, hdir, content, hcontent⟩
    have hholds : Holds fs dir n := Option.isSome_of_eq_some hcontent
    have hne : n ≠ "" := by
      rintro rfl
      exact (horderly dir hdir).2.1 hholds
    exact ⟨dir, hdir, (horderly dir hdir).1, .inl ⟨hne, hholds⟩⟩

/-- A file of a definition is listed under its name and found. -/
theorem available_lists_entries_file :
    let fs : Files := ⟨[(["d"], .directory), (["d", "a.json"], .file (.text "text"))]⟩
    (∀ dir ∈ ["d"], Wildcard.AllPlain dir.toList) ∧ '/' ∉ "a".toList ∧
      "a" ∈ SearchPath.available ["d"] fs ∧ (SearchPath.locate ["d"] fs "a").isSome = true := by
  intro fs
  have hplain : ∀ dir ∈ ["d"], Wildcard.AllPlain dir.toList := by decide
  have hslash : '/' ∉ "a".toList := by decide
  obtain ⟨hlisted, hfound, -⟩ := (available_lists_entries ["d"] fs hplain).2 "a" hslash
  refine ⟨hplain, hslash, hlisted.mpr ?_, hfound.mpr ?_⟩
  · exact ⟨"d", List.mem_singleton_self _, .inr (by decide), .inl ⟨by decide, rfl⟩⟩
  · exact ⟨"d", List.mem_singleton_self _, .text "text", rfl⟩

/-- A directory with the file name of a definition is listed, but no definition is found. A definition
whose file name is only the extension is listed under a name it is not found by. Behind a dot and an empty
step a definition is found that is not listed. -/
theorem listed_without_definition :
    let fs : Files := ⟨[(["d"], .directory), (["d", "a.json"], .directory), (["e"], .directory),
      (["e", ".json"], .file (.text "text")), (["b.json"], .file (.text "text"))]⟩
    ("a" ∈ SearchPath.available ["d"] fs ∧ SearchPath.locate ["d"] fs "a" = none) ∧
    (".json" ∈ SearchPath.available ["e"] fs ∧ SearchPath.locate ["e"] fs ".json" = none) ∧
    ("" ∉ SearchPath.available ["e"] fs ∧ SearchPath.locate ["e"] fs "" = some "e/.json") ∧
    ("b" ∉ SearchPath.available [".//"] fs ∧
      SearchPath.locate [".//"] fs "b" = some ".//b.json") := by
  intro fs
  have hplain : ∀ path ∈ ["d", "e", ".//"], ∀ dir ∈ [path], Wildcard.AllPlain dir.toList := by decide
  refine ⟨⟨?_, rfl⟩, ⟨?_, rfl⟩, ⟨?_, rfl⟩, ⟨?_, rfl⟩⟩
  · refine (mem_available_iff (hplain "d" (by decide)) (by decide)).mpr ?_
    exact ⟨"d", List.mem_singleton_self _, .inr (by decide), .inl ⟨by decide, rfl⟩⟩
  · refine (mem_available_iff (hplain "e" (by decide)) (by decide)).mpr ?_
    exact ⟨"e", List.mem_singleton_self _, .inr (by decide), .inr ⟨rfl, rfl⟩⟩
  · rw [mem_available_iff (hplain "e" (by decide)) (by decide)]
    rintro ⟨dir, -, -, ⟨hne, -⟩ | ⟨hext, -⟩⟩
    · exact hne rfl
    · exact absurd hext (by decide)
  · rw [mem_available_iff (hplain ".//" (by decide)) (by decide)]
    rintro ⟨dir, hdir, hsearched, -⟩
    rw [List.mem_singleton] at hdir
    subst hdir
    exact absurd hsearched (by unfold IsSearched; decide)

end ActorHub.SearchPath
