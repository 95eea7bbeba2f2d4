import ActorHub.Dictionary.Registry
import ActorHub.Proofs.Outcome
import Mathlib.Data.List.Induction
import Mathlib.Data.List.Nodup

/-!
# The registry through its history

Dictionaries are declared, loaded and removed while the files they come from change. Every name leads to
a dictionary of that name, and it stays the same one until the name is declared, removed or loaded by
force; what the files hold by then is not looked at.
-/

namespace ActorHub

/-! ## Names -/

namespace Dictionary

section
variable {name source : String} {version : Version} {keys : List Key} {d d' : Dictionary}

theorem make_name (h : make name version = .ok d) : d.name = name := by
  unfold make at h
  split at h
  · cases h
    rfl
  · cases h

theorem add_name {k : Key} (h : d.add k = .ok d') : d'.name = d.name := by
  unfold add at h
  split at h
  · cases h
  · obtain ⟨shape, -, rfl⟩ := map_eq_ok_iff.mp h
    rfl

theorem foldlM_name {α : Type} {f : Dictionary → α → Except DictionaryError Dictionary}
    (hf : ∀ d a d', f d a = .ok d' → d'.name = d.name) {as : List α}
    (h : as.foldlM f d = .ok d') : d'.name = d.name := by
  induction as generalizing d with
  | nil =>
    cases h
    rfl
  | cons a as ih =>
    rw [List.foldlM_cons, bind_eq_ok_iff] at h
    obtain ⟨d₁, hd₁, h⟩ := h
    rw [ih h, hf d a d₁ hd₁]

theorem ofKeys_name (h : ofKeys name version keys = .ok d) : d.name = name := by
  obtain ⟨start, hstart, h⟩ := bind_eq_ok_iff.mp h
  rw [foldlM_name (fun _ _ _ => add_name) h, make_name hstart]

theorem build_name {definition : Definition} (h : definition.build = .ok d) :
    d.name = definition.name := by
  obtain ⟨start, hstart, h⟩ := bind_eq_ok_iff.mp h
  rw [foldlM_name _ h, make_name hstart]
  intro d₁ k d₂ hd₂
  obtain ⟨key, -, hd₂⟩ := bind_eq_ok_iff.mp hd₂
  exact add_name hd₂

theorem ofSource_eq_ok_iff : ofSource name source = .ok d ↔
    ∃ definition built, (Document.read source).bind Definition.ofDocument? = some definition ∧
      definition.name = name ∧ definition.build = .ok built ∧
      d = { built with checksum := some (Sha256.ofText source) } := by
  unfold ofSource
  cases (Document.read source).bind Definition.ofDocument? with
  | none => exact ⟨nofun, nofun⟩
  | some definition =>
    by_cases hname : definition.name = name
    · simp only [hname, ne_eq, not_true_eq_false, if_false, bind_eq_ok_iff, mapError_eq_ok_iff,
        pure_eq_ok_iff]
      constructor
      · rintro ⟨built, hbuilt, rfl⟩
        exact ⟨definition, built, rfl, hname, hbuilt, rfl⟩
      · rintro ⟨_, built, hsame, -, hbuilt, rfl⟩
        cases hsame
        exact ⟨built, hbuilt, rfl⟩
    · simp only [ne_eq, hname, not_false_eq_true, if_true]
      refine ⟨nofun, ?_⟩
      rintro ⟨_, built, hsame, hname', -⟩
      cases hsame
      exact absurd hname' hname

theorem ofSource_name (h : ofSource name source = .ok d) : d.name = name := by
  obtain ⟨definition, built, -, hname, hbuilt, rfl⟩ := ofSource_eq_ok_iff.mp h
  exact (build_name hbuilt).trans hname

theorem ofSource_checksum (h : ofSource name source = .ok d) :
    d.checksum = some (Sha256.ofText source) := by
  obtain ⟨definition, built, -, -, -, rfl⟩ := ofSource_eq_ok_iff.mp h
  rfl

end

end Dictionary

/-! ## Definitions on the search path -/

namespace SearchPath

/-- The content is that of the file of the name in the first directory that has one. -/
def Provides (dirs : SearchPath) (fs : Files) (name : String) (content : FileContent) : Prop :=
  ∃ before dir behind, dirs = before ++ dir :: behind ∧
    (∀ d ∈ before, fs.isFile (Files.join d (fileName name)) = false) ∧
    fs.content? (Files.join dir (fileName name)) = some content

section
variable {dirs : SearchPath} {fs : Files} {name : String} {content : FileContent} {d : Dictionary}

theorem provides_cons {dir : String} : Provides (dir :: dirs) fs name content ↔
    fs.content? (Files.join dir (fileName name)) = some content ∨
      fs.isFile (Files.join dir (fileName name)) = false ∧ Provides dirs fs name content := by
  constructor
  · rintro ⟨before, found, behind, hdirs, hbefore, hcontent⟩
    cases before with
    | nil =>
      cases hdirs
      exact .inl hcontent
    | cons first before =>
      cases hdirs
      exact .inr ⟨hbefore _ List.mem_cons_self, before, found, behind, rfl,
        fun d hd => hbefore d (List.mem_cons_of_mem _ hd), hcontent⟩
  · rintro (hcontent | ⟨hnone, before, found, behind, rfl, hbefore, hcontent⟩)
    · exact ⟨[], dir, dirs, rfl, nofun, hcontent⟩
    · exact ⟨dir :: before, found, behind, rfl, List.forall_mem_cons.mpr ⟨hnone, hbefore⟩, hcontent⟩

theorem content?_locate :
    (dirs.locate fs name).bind fs.content? = some content ↔ Provides dirs fs name content := by
  induction dirs with
  | nil => exact ⟨nofun, fun ⟨before, _, _, h, _⟩ => by cases before <;> cases h⟩
  | cons dir dirs ih =>
    rw [provides_cons, ← ih]
    unfold locate
    rw [List.map_cons, List.find?_cons]
    cases hcontent : fs.content? (Files.join dir (fileName name)) with
    | none => simp [Files.isFile, hcontent]
    | some found => simp [Files.isFile, hcontent]

theorem read_eq_ok_iff : dirs.read fs name = .ok d ↔
    ∃ text, Provides dirs fs name (.text text) ∧ Dictionary.ofSource name text = .ok d := by
  simp only [← content?_locate]
  unfold read
  cases (dirs.locate fs name).bind fs.content? with
  | none => exact ⟨nofun, nofun⟩
  | some content =>
    cases content with
    | text source => simp [FileContent.read, Except.mapError, bind, Except.bind]
    | bytes | locked reason => exact ⟨nofun, nofun⟩

theorem read_name (h : dirs.read fs name = .ok d) : d.name = name := by
  obtain ⟨text, -, hsource⟩ := read_eq_ok_iff.mp h
  exact Dictionary.ofSource_name hsource

end

end SearchPath

/-! ## Single calls -/

namespace Registry

section
variable {r r' : Registry} {d : Dictionary} {e : Registered} {n name : String}

theorem get?_name (h : r.get? n = some e) : e.dictionary.name = n :=
  beq_iff_eq.mp (List.find?_some (p := fun e : Registered => e.dictionary.name == n) h)

theorem get?_remove (r : Registry) (name n : String) :
    (r.remove name).get? n = if n = name then none else r.get? n := by
  unfold get? remove
  rw [List.find?_filter]
  by_cases hn : n = name
  · subst hn
    simp
  · rw [if_neg hn]
    congr 1
    funext e
    by_cases he : e.dictionary.name = n
    · simp [he, hn]
    · simp [he]

theorem get?_register (r : Registry) (d : Dictionary) (n : String) :
    (r.register d).1.get? n = if n = d.name then some (r.register d).2 else r.get? n := by
  show List.find? _ (_ :: (r.remove d.name).entries) = _
  rw [List.find?_cons]
  by_cases hn : n = d.name
  · simp [hn, register]
  · have hne : (d.name == n) = false := beq_false_of_ne (Ne.symm hn)
    have hrest := get?_remove r d.name n
    rw [if_neg hn] at hrest
    simp only [hne, if_neg hn]
    exact hrest

theorem load_registered (dirs : SearchPath) (fs : Files) (h : r.get? n = some e) :
    r.load dirs fs n false = .ok (r, e) := by
  simp only [load, Bool.false_eq_true, if_false, h]

theorem load_fresh (dirs : SearchPath) (fs : Files) {force : Bool}
    (h : force = true ∨ r.get? n = none) :
    r.load dirs fs n force = (dirs.read fs n).map r.register := by
  have hnone : (if force then none else r.get? n) = none := by
    rcases h with rfl | h
    · rfl
    · rw [h, ite_self]
  simp only [load, hnone]

end

/-! ## Histories -/

inductive Event where
  | declare (name : String) (version : Version) (keys : List Key)
  | load (dirs : SearchPath) (name : String) (force : Bool)
  | remove (name : String)
  /-- The files change into any others. -/
  | files (fs : Files)

structure State where
  registry : Registry
  files : Files
  /-- The dictionaries handed out so far. -/
  given : List Registered

def Event.run (s : State) : Event → Except DictionaryError (Registry × Option Registered)
  | .declare name version keys =>
    (s.registry.declare name version keys).map fun (r, entry) => (r, some entry)
  | .load dirs name force =>
    (s.registry.load dirs s.files name force).map fun (r, entry) => (r, some entry)
  | .remove name => .ok (s.registry.remove name, s.registry.get? name)
  | .files _ => .ok (s.registry, none)

def Event.filesAfter (fs : Files) : Event → Files
  | .files fs' => fs'
  | _ => fs

def State.next (s : State) (event : Event) : State :=
  match event.run s with
  | .ok (registry, entry) => ⟨registry, event.filesAfter s.files, entry.toList ++ s.given⟩
  | .error _ => { s with files := event.filesAfter s.files }

def State.after (s : State) (events : List Event) : State :=
  events.foldl next s

def start (fs : Files) : State :=
  ⟨empty, fs, []⟩

/-- The event puts another dictionary in the place of that of a name, or none. -/
def Event.Replaces (s : State) (n : String) : Event → Prop
  | .declare name version keys => name = n ∧ ∃ r, s.registry.declare name version keys = .ok r
  | .load dirs name force =>
    name = n ∧ force = true ∧ ∃ r, s.registry.load dirs s.files name force = .ok r
  | .remove name => name = n
  | .files _ => False

def Undisturbed (n : String) : State → List Event → Prop
  | _, [] => True
  | s, event :: events => ¬event.Replaces s n ∧ Undisturbed n (s.next event) events

/-! ## Writes in place -/

structure Table where
  find? : String → Option Registered
  editions : Nat

/-- A computation that writes to the table. A fault leaves what was written before it. -/
abbrev Writing := ExceptT DictionaryError (StateM Table)

def enter (d : Dictionary) : Writing Registered := do
  let entry := ⟨d, (← get).editions⟩
  modify fun t => { t with editions := t.editions + 1 }
  modify fun t => { t with find? := fun n => if n = d.name then some entry else t.find? n }
  return entry

def enterBuilt : Except DictionaryError Dictionary → Writing Registered
  | .ok d => enter d
  | .error e => throw e

def fetch (dirs : SearchPath) (fs : Files) (name : String) (force : Bool) : Writing Registered := do
  let t ← get
  match if force then none else t.find? name with
  | some entry => return entry
  | none => enterBuilt (dirs.read fs name)

def drop (name : String) : Writing (Option Registered) := do
  let entry := (← get).find? name
  modify fun t => { t with find? := fun n => if n = name then none else t.find? n }
  return entry

def Event.write (fs : Files) : Event → Writing (Option Registered)
  | .declare name version keys => return some (← enterBuilt (Dictionary.ofKeys name version keys))
  | .load dirs name force => return some (← fetch dirs fs name force)
  | .remove name => drop name
  | .files _ => return none

/-- The files and the table after events, starting with no dictionary. -/
def written (fs : Files) (events : List Event) : Files × Table :=
  events.foldl (fun (fs, t) event => (event.filesAfter fs, (event.write fs t).2))
    (fs, ⟨fun _ => none, 0⟩)

def table (r : Registry) : Table :=
  ⟨r.get?, r.editions⟩

def outcome {α : Type} (r : Registry) :
    Except DictionaryError (Registry × α) → Except DictionaryError α × Table
  | .ok (r', a) => (.ok a, r'.table)
  | .error e => (.error e, r.table)

theorem enter_eq (r : Registry) (d : Dictionary) :
    enter d r.table = (.ok (r.register d).2, (r.register d).1.table) := by
  show (Except.ok (r.register d).2, Table.mk
    (fun n => if n = d.name then some (r.register d).2 else r.get? n) (r.editions + 1)) = _
  simp only [← get?_register]
  rfl

theorem enterBuilt_eq (r : Registry) (built : Except DictionaryError Dictionary) :
    enterBuilt built r.table = outcome r (built.map r.register) := by
  cases built with
  | ok d => exact enter_eq r d
  | error e => rfl

theorem fetch_eq (r : Registry) (dirs : SearchPath) (fs : Files) (name : String) (force : Bool) :
    fetch dirs fs name force r.table = outcome r (r.load dirs fs name force) := by
  have hget : fetch dirs fs name force r.table =
      (match if force then none else r.get? name with
        | some entry => return entry
        | none => enterBuilt (dirs.read fs name) : Writing Registered) r.table := rfl
  rw [hget, load]
  cases if force then none else r.get? name with
  | some entry => rfl
  | none => exact enterBuilt_eq r _

theorem drop_eq (r : Registry) (name : String) :
    drop name r.table = (.ok (r.get? name), (r.remove name).table) := by
  show (Except.ok (r.get? name), Table.mk
    (fun n => if n = name then none else r.get? n) r.editions) = _
  simp only [← get?_remove]
  rfl

theorem return_some_eq {r : Registry} {x : Writing Registered}
    {y : Except DictionaryError (Registry × Registered)} (h : x r.table = outcome r y) :
    (do return some (← x) : Writing (Option Registered)) r.table =
      outcome r (y.map fun (r, entry) => (r, some entry)) := by
  have hmap : (do return some (← x) : Writing (Option Registered)) r.table =
      match x r.table with
      | (.ok entry, t) => (.ok (some entry), t)
      | (.error e, t) => (.error e, t) := by
    show StateT.bind x (ExceptT.bindCont fun entry => pure (some entry)) r.table = _
    unfold StateT.bind
    cases x r.table with
    | mk result t => cases result <;> rfl
  rw [hmap, h]
  cases y <;> rfl

/-- The writes of an event come to what it does to the registry as a whole, and those of one that fails
come to nothing. -/
theorem write_eq (s : State) (event : Event) :
    event.write s.files s.registry.table = outcome s.registry (event.run s) := by
  cases event with
  | declare name version keys => exact return_some_eq (enterBuilt_eq s.registry _)
  | load dirs name force => exact return_some_eq (fetch_eq s.registry dirs s.files name force)
  | remove name => exact drop_eq s.registry name
  | files fs => rfl

theorem next_files (s : State) (event : Event) : (s.next event).files = event.filesAfter s.files := by
  unfold State.next
  cases event.run s <;> rfl

theorem next_table (s : State) (event : Event) :
    (event.write s.files s.registry.table).2 = (s.next event).registry.table := by
  rw [write_eq, State.next]
  cases event.run s <;> rfl

theorem written_eq (fs : Files) (events : List Event) :
    let s := (start fs).after events
    written fs events = (s.files, s.registry.table) := by
  induction events using List.reverseRecOn with
  | nil => rfl
  | append_singleton events event ih =>
    simp only [written, State.after, List.foldl_concat] at ih ⊢
    rw [ih]
    simp only [next_table, next_files]

/-! ## Coherence -/

/-- Names lead to one dictionary each, and an edition tells a dictionary handed out from every other. -/
structure Coherent (s : State) : Prop where
  names : (s.registry.entries.map (·.dictionary.name)).Nodup
  given : ∀ e ∈ s.registry.entries, e ∈ s.given
  editions : ∀ e ∈ s.given, e.edition < s.registry.editions
  instances : ∀ e ∈ s.given, ∀ e' ∈ s.given, e.edition = e'.edition → e = e'

section
variable {s : State} {r r' : Registry} {e : Registered} {entry : Option Registered} {n : String}

theorem mem_remove_iff {name : String} :
    e ∈ (r.remove name).entries ↔ e ∈ r.entries ∧ e.dictionary.name ≠ name := by
  simp [remove]

theorem nodup_remove (name : String) (h : (r.entries.map (·.dictionary.name)).Nodup) :
    ((r.remove name).entries.map (·.dictionary.name)).Nodup :=
  h.sublist (List.filter_sublist.map _)

theorem get?_eq_some_iff (h : (r.entries.map (·.dictionary.name)).Nodup) :
    r.get? n = some e ↔ e ∈ r.entries ∧ e.dictionary.name = n := by
  constructor
  · exact fun he => ⟨List.mem_of_find?_eq_some he, get?_name he⟩
  · rintro ⟨he, hname⟩
    obtain ⟨e', he'⟩ : ∃ e', r.get? n = some e' :=
      Option.isSome_iff_exists.mp (List.find?_isSome.mpr ⟨e, he, beq_iff_eq.mpr hname⟩)
    have hsame : e' = e := List.inj_on_of_nodup_map h (List.mem_of_find?_eq_some he') he
      ((get?_name he').trans hname.symm)
    rw [he', hsame]

theorem declare_eq_ok {name : String} {version : Version} {keys : List Key}
    (h : r.declare name version keys = .ok (r', e)) :
    ∃ d, Dictionary.ofKeys name version keys = .ok d ∧ r' = (r.register d).1 ∧
      e = (r.register d).2 := by
  obtain ⟨d, hd, hr⟩ := map_eq_ok_iff.mp h
  exact ⟨d, hd, congrArg Prod.fst hr.symm, congrArg Prod.snd hr.symm⟩

theorem load_cases {dirs : SearchPath} {fs : Files} {name : String} {force : Bool}
    (h : r.load dirs fs name force = .ok (r', e)) :
    (force = false ∧ r' = r ∧ r.get? name = some e) ∨
    ((force = true ∨ r.get? name = none) ∧
      ∃ d, dirs.read fs name = .ok d ∧ r' = (r.register d).1 ∧ e = (r.register d).2) := by
  by_cases hfresh : force = true ∨ r.get? name = none
  · rw [load_fresh dirs fs hfresh] at h
    obtain ⟨d, hd, hr⟩ := map_eq_ok_iff.mp h
    exact .inr ⟨hfresh, d, hd, congrArg Prod.fst hr.symm, congrArg Prod.snd hr.symm⟩
  · rw [not_or, Bool.not_eq_true] at hfresh
    obtain ⟨hforce, hget⟩ := hfresh
    obtain ⟨e', he'⟩ := Option.ne_none_iff_exists'.mp hget
    rw [hforce, load_registered dirs fs he'] at h
    cases h
    exact .inl ⟨hforce, rfl, he'⟩

theorem run_cases {event : Event} (h : event.run s = .ok (r, entry)) :
    (∃ d, r = (s.registry.register d).1 ∧ entry = some (s.registry.register d).2) ∨
    (r = s.registry ∧ ∀ e ∈ entry, e ∈ s.registry.entries) ∨
    ∃ name, r = s.registry.remove name ∧ entry = s.registry.get? name := by
  cases event with
  | declare name version keys =>
    obtain ⟨⟨r₁, e⟩, hdeclare, hr⟩ := map_eq_ok_iff.mp h
    cases hr
    obtain ⟨d, -, rfl, rfl⟩ := declare_eq_ok hdeclare
    exact .inl ⟨d, rfl, rfl⟩
  | load dirs name force =>
    obtain ⟨⟨r₁, e⟩, hload, hr⟩ := map_eq_ok_iff.mp h
    cases hr
    obtain ⟨-, rfl, he⟩ | ⟨-, d, -, rfl, rfl⟩ := load_cases hload
    · refine .inr (.inl ⟨rfl, ?_⟩)
      rintro e' ⟨⟩
      exact List.mem_of_find?_eq_some he
    · exact .inl ⟨d, rfl, rfl⟩
  | remove name =>
    cases h
    exact .inr (.inr ⟨name, rfl, rfl⟩)
  | files fs =>
    cases h
    exact .inr (.inl ⟨rfl, nofun⟩)

namespace Coherent

theorem start (fs : Files) : Coherent (start fs) where
  names := List.nodup_nil
  given := nofun
  editions := nofun
  instances := nofun

theorem give (h : Coherent s) (fs : Files) (he : ∀ e ∈ entry, e ∈ s.registry.entries) :
    Coherent ⟨s.registry, fs, entry.toList ++ s.given⟩ := by
  have hgiven : ∀ e, e ∈ entry.toList ++ s.given ↔ e ∈ s.given := by
    intro e
    rw [List.mem_append, Option.mem_toList, or_iff_right_iff_imp]
    exact fun hentry => h.given e (he e hentry)
  refine ⟨h.names, ?_, ?_, ?_⟩
  · exact fun e hmem => (hgiven e).mpr (h.given e hmem)
  · exact fun e hmem => h.editions e ((hgiven e).mp hmem)
  · exact fun e hmem e' hmem' => h.instances e ((hgiven e).mp hmem) e' ((hgiven e').mp hmem')

theorem remove (h : Coherent s) (name : String) :
    Coherent ⟨s.registry.remove name, s.files, s.given⟩ where
  names := nodup_remove name h.names
  given e he := h.given e (mem_remove_iff.mp he).1
  editions := h.editions
  instances := h.instances

theorem register (h : Coherent s) (fs : Files) (d : Dictionary) :
    Coherent ⟨(s.registry.register d).1, fs, (s.registry.register d).2 :: s.given⟩ where
  names := by
    refine List.nodup_cons.mpr ⟨?_, nodup_remove d.name h.names⟩
    rw [List.mem_map]
    rintro ⟨e, he, hname⟩
    exact (mem_remove_iff.mp he).2 hname
  given := by
    intro e he
    obtain rfl | he := List.mem_cons.mp he
    · exact List.mem_cons_self
    · exact List.mem_cons_of_mem _ (h.given e (mem_remove_iff.mp he).1)
  editions := by
    intro e he
    obtain rfl | he := List.mem_cons.mp he
    · exact Nat.lt_succ_self _
    · exact Nat.lt_succ_of_lt (h.editions e he)
  instances := by
    intro e he e' he' hsame
    -- the new edition is above all that were given
    obtain rfl | he := List.mem_cons.mp he <;> obtain rfl | he' := List.mem_cons.mp he'
    · rfl
    · exact absurd hsame.symm (Nat.ne_of_lt (h.editions e' he'))
    · exact absurd hsame (Nat.ne_of_lt (h.editions e he))
    · exact h.instances e he e' he' hsame

theorem next (h : Coherent s) (event : Event) : Coherent (s.next event) := by
  unfold State.next
  cases hrun : event.run s with
  | error err => exact ⟨h.names, h.given, h.editions, h.instances⟩
  | ok result =>
    obtain ⟨r, entry⟩ := result
    obtain ⟨d, rfl, rfl⟩ | ⟨rfl, he⟩ | ⟨name, rfl, rfl⟩ := run_cases hrun
    · exact h.register _ d
    · exact h.give _ he
    · have hgiven : Coherent ⟨s.registry, s.files, (s.registry.get? name).toList ++ s.given⟩ :=
        h.give s.files fun e he => List.mem_of_find?_eq_some he
      exact ⟨(hgiven.remove name).names, (hgiven.remove name).given, hgiven.editions,
        hgiven.instances⟩

theorem after (h : Coherent s) (events : List Event) : Coherent (s.after events) := by
  induction events generalizing s with
  | nil => exact h
  | cons event events ih => exact ih (h.next event)

end Coherent

/-! ## What stays under a name -/

theorem get?_next {event : Event} (h : s.registry.get? n = some e) (hrest : ¬event.Replaces s n) :
    (s.next event).registry.get? n = some e := by
  unfold State.next
  cases hrun : event.run s with
  | error err => exact h
  | ok result =>
    cases event with
    | declare name version keys =>
      obtain ⟨⟨r₁, e₁⟩, hdeclare, hr⟩ := map_eq_ok_iff.mp hrun
      cases hr
      have hn : name ≠ n := fun hn => hrest ⟨hn, _, hdeclare⟩
      obtain ⟨d, hd, rfl, rfl⟩ := declare_eq_ok hdeclare
      rw [get?_register, Dictionary.ofKeys_name hd, if_neg hn.symm, h]
    | load dirs name force =>
      obtain ⟨⟨r₁, e₁⟩, hload, hr⟩ := map_eq_ok_iff.mp hrun
      cases hr
      obtain ⟨-, rfl, -⟩ | ⟨hfresh, d, hd, rfl, rfl⟩ := load_cases hload
      · exact h
      · have hn : n ≠ name := by
          rintro rfl
          obtain rfl | hnone := hfresh
          · exact hrest ⟨rfl, rfl, _, hload⟩
          · rw [hnone] at h
            cases h
        rw [get?_register, SearchPath.read_name hd, if_neg hn, h]
    | remove name =>
      cases hrun
      rw [get?_remove, if_neg (Ne.symm hrest), h]
    | files fs =>
      cases hrun
      exact h

theorem get?_after {events : List Event} (h : s.registry.get? n = some e)
    (hrest : Undisturbed n s events) : (s.after events).registry.get? n = some e := by
  induction events generalizing s with
  | nil => exact h
  | cons event events ih => exact ih (get?_next h hrest.1) hrest.2

theorem next_of_run_eq_error {event : Event} {err : DictionaryError} (h : event.run s = .error err) :
    s.next event = s := by
  unfold State.next
  rw [h]
  cases event with
  | files fs => cases h
  | _ => rfl

end

/-- Whatever is declared, loaded and removed while the files change, names lead to dictionaries of those
names, and an edition tells each from every other. A call that fails leaves the registry as it was. A
registered dictionary is loaded as it is, whatever the files hold. A fresh one is built from the first
definition of its name, and is what the name leads to until it is replaced. -/
theorem registry_coherent (fs : Files) (events : List Event) :
    let s := (start fs).after events
    written fs events = (s.files, s.registry.table) ∧
    (∀ n e, s.registry.table.find? n = some e ↔
      e ∈ s.registry.entries ∧ e.dictionary.name = n) ∧
    (∀ e ∈ s.given, ∀ e' ∈ s.given, e.edition = e'.edition → e = e') ∧
    (∀ event : Event, event.write s.files s.registry.table = outcome s.registry (event.run s)) ∧
    (∀ (event : Event) err t, event.write s.files s.registry.table = (.error err, t) →
      t = s.registry.table ∧ s.next event = s) ∧
    (∀ n e, s.registry.get? n = some e → ∀ dirs fs',
      e ∈ s.given ∧ s.registry.load dirs fs' n false = .ok (s.registry, e)) ∧
    ∀ dirs n force r e, force = true ∨ s.registry.get? n = none →
      s.registry.load dirs s.files n force = .ok (r, e) →
      (∃ text, dirs.Provides s.files n (.text text) ∧ Dictionary.ofSource n text = .ok e.dictionary ∧
        e.dictionary.name = n ∧ e.dictionary.checksum = some (Sha256.ofText text)) ∧
      (∀ e' ∈ s.given, e'.edition ≠ e.edition) ∧
      ∀ later, Undisturbed n (s.next (.load dirs n force)) later →
        let s' := (s.next (.load dirs n force)).after later
        ∀ dirs' fs', s'.registry.load dirs' fs' n false = .ok (s'.registry, e) := by
  intro s
  have hs : Coherent s := (Coherent.start fs).after events
  refine ⟨written_eq fs events, fun n e => get?_eq_some_iff hs.names, hs.instances, write_eq s,
    ?_, ?_, ?_⟩
  · intro event err t hwrite
    rw [write_eq] at hwrite
    cases hrun : event.run s with
    | error err' =>
      rw [hrun] at hwrite
      exact ⟨congrArg Prod.snd hwrite.symm, next_of_run_eq_error hrun⟩
    | ok result =>
      rw [hrun] at hwrite
      cases hwrite
  · intro n e he dirs fs'
    exact ⟨hs.given e (List.mem_of_find?_eq_some he), load_registered dirs fs' he⟩
  · intro dirs n force r e hfresh hload
    have hnext : (s.next (.load dirs n force)).registry = r := by
      rw [State.next, Event.run, hload]
      rfl
    rw [load_fresh dirs s.files hfresh] at hload
    obtain ⟨d, hd, hr⟩ := map_eq_ok_iff.mp hload
    cases hr
    obtain ⟨text, hprovides, hsource⟩ := SearchPath.read_eq_ok_iff.mp hd
    have hname := Dictionary.ofSource_name hsource
    refine ⟨⟨text, hprovides, hsource, hname, Dictionary.ofSource_checksum hsource⟩, ?_, ?_⟩
    · exact fun e' he' => Nat.ne_of_lt (hs.editions e' he')
    · intro later hlater s' dirs' fs'
      refine load_registered dirs' fs' (get?_after ?_ hlater)
      rw [hnext]
      show (s.registry.register d).1.get? n = some (s.registry.register d).2
      rw [get?_register, if_pos hname.symm]

end Registry

end ActorHub
