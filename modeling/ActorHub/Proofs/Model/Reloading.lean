import ActorHub.Proofs.Dictionary.Registry
import ActorHub.Proofs.Model.Commuting

/-!
# Loading and reloading

A model is loaded along the search path it is given and reloaded along that of the environment at the
time. So the two agree just if the environment leads to the definition that the other path leads to
(`reload_follows_environment`). A reload that fails writes nothing; one that succeeds leaves a model that
knows nothing yet and has no observers.
-/

namespace ActorHub

/-! ## Search paths in a row -/

namespace SearchPath

variable {dirs own : SearchPath} {fs : Files} {name : String} {content : FileContent}

theorem provides_behind (h : ∀ dir ∈ own, fs.isFile (Files.join dir (fileName name)) = false) :
    Provides (own ++ dirs) fs name content ↔ Provides dirs fs name content := by
  induction own with
  | nil => rfl
  | cons dir own ih =>
    obtain ⟨hdir, hown⟩ := List.forall_mem_cons.mp h
    have hnone : fs.content? (Files.join dir (fileName name)) = none := by
      rwa [Files.isFile, Option.isSome_eq_false_iff, Option.isNone_iff_eq_none] at hdir
    rw [List.cons_append, provides_cons, hdir, hnone, ih hown]
    simp

theorem read_eq_notFound (h : ∀ content, ¬Provides dirs fs name content) :
    dirs.read fs name = .error (.notFound name dirs) := by
  have hnone : (dirs.locate fs name).bind fs.content? = none :=
    Option.eq_none_iff_forall_ne_some.mpr fun content hcontent => h content (content?_locate.mp hcontent)
  rw [read, hnone]

theorem read_eq_notReadable {reason : String} (h : Provides dirs fs name content)
    (hread : content.read = .error reason) : dirs.read fs name = .error (.notReadable name reason) := by
  rw [read, content?_locate.mpr h]
  simp only [hread, Except.mapError]
  rfl

end SearchPath

namespace KeywordModel

/-! ## The life of a model -/

/-- A model among the dictionaries, the files and the setting that it is reloaded from. -/
structure Life where
  registry : Registry
  files : Files
  /-- The variable of the environment that names directories. -/
  keysPath : Option String
  model : KeywordModel

inductive Occurrence where
  | model (e : Event)
  | reload
  /-- Dictionaries are declared, loaded and removed, and files change. -/
  | registry (e : Registry.Event)
  | keysPath (value : Option String)

namespace Life

def reloaded (s : Life) : Except DictionaryError (Registry × KeywordModel) :=
  s.model.reload s.registry s.keysPath s.files

def next (s : Life) : Occurrence → Life
  | .model e => { s with model := s.model.follow e }
  | .reload =>
    match s.reloaded with
    | .ok (registry, model) => { s with registry, model }
    | .error _ => s
  | .registry e =>
    let t := (Registry.State.mk s.registry s.files []).next e
    { s with registry := t.registry, files := t.files }
  | .keysPath value => { s with keysPath := value }

def after (s : Life) (occurrences : List Occurrence) : Life :=
  occurrences.foldl next s

end Life

/-! ## Reloading in place -/

/-- A computation that writes to the registry and to a model. A fault leaves what was written before it. -/
abbrev Renewing := ExceptT DictionaryError (StateM (Registry.Table × KeywordModel))

def onRegistry {α : Type} (x : Registry.Writing α) : Renewing α :=
  fun (t, m) => ((x t).1, ((x t).2, m))

def takeOver (x : Registry.Writing Registered) : Renewing Unit := do
  let entry ← onRegistry x
  modify fun (t, _) => (t, ofDictionary entry.dictionary)

def renew (keysPath : Option String) (fs : Files) : Renewing Unit := do
  let actor := (← get).2.actor
  takeOver (Registry.fetch (SearchPath.ofVariable keysPath) fs actor true)

theorem takeOver_eq (x : Registry.Writing Registered) (t : Registry.Table) (m : KeywordModel) :
    takeOver x (t, m) =
      match x t with
      | (.ok entry, t') => (.ok (), (t', ofDictionary entry.dictionary))
      | (.error e, t') => (.error e, (t', m)) := by
  show ExceptT.bindCont (m := StateM (Registry.Table × KeywordModel))
    (fun entry : Registered => modify fun (t, _) => (t, ofDictionary entry.dictionary))
    (x t).1 ((x t).2, m) = _
  cases x t with
  | mk result t' => cases result <;> rfl

/-- The steps of a reload come to what it is as a whole, and those of one that fails come to nothing. -/
theorem renew_eq (s : Life) : renew s.keysPath s.files (s.registry.table, s.model) =
    match s.reloaded with
    | .ok (registry, model) => (.ok (), (registry.table, model))
    | .error e => (.error e, (s.registry.table, s.model)) := by
  have hsteps : renew s.keysPath s.files (s.registry.table, s.model) =
      takeOver (Registry.fetch (SearchPath.ofVariable s.keysPath) s.files s.model.actor true)
        (s.registry.table, s.model) := rfl
  rw [hsteps, takeOver_eq, Registry.fetch_eq, Life.reloaded, reload]
  cases s.registry.load (SearchPath.ofVariable s.keysPath) s.files s.model.actor true <;> rfl

/-! ## What a reload comes to -/

theorem reloaded_eq (s : Life) : s.reloaded =
    ((SearchPath.ofVariable s.keysPath).read s.files s.model.actor).map
      fun d => ((s.registry.register d).1, ofDictionary d) := by
  rw [Life.reloaded, reload, Registry.load_fresh _ _ (.inl rfl)]
  cases (SearchPath.ofVariable s.keysPath).read s.files s.model.actor <;> rfl

theorem reloaded_eq_ok_iff {s : Life} {registry : Registry} {m : KeywordModel} :
    s.reloaded = .ok (registry, m) ↔
      ∃ d, (SearchPath.ofVariable s.keysPath).read s.files s.model.actor = .ok d ∧
        registry = (s.registry.register d).1 ∧ m = ofDictionary d := by
  rw [reloaded_eq, map_eq_ok_iff]
  refine exists_congr fun d => and_congr_right fun _ => ?_
  rw [Prod.mk.injEq, eq_comm, eq_comm (a := m)]

theorem reloaded_agrees_iff {s : Life} {loader : SearchPath} :
    (∀ registry entry, s.registry.load loader s.files s.model.actor true = .ok (registry, entry) →
        s.reloaded = .ok (registry, ofDictionary entry.dictionary)) ↔
      ∀ d, loader.read s.files s.model.actor = .ok d →
        (SearchPath.ofVariable s.keysPath).read s.files s.model.actor = .ok d := by
  rw [Registry.load_fresh _ _ (.inl rfl)]
  constructor
  · intro hagrees d hd
    rw [hd] at hagrees
    obtain ⟨d', hd', -, hmodel⟩ := reloaded_eq_ok_iff.mp (hagrees _ _ rfl)
    have hsame : d = d' := congrArg KeywordModel.dictionary hmodel
    rw [hd', hsame]
  · intro hread registry entry hload
    obtain ⟨d, hd, hentry⟩ := map_eq_ok_iff.mp hload
    cases hentry
    exact reloaded_eq_ok_iff.mpr ⟨d, hread d hd, rfl, rfl⟩

theorem keyword?_ofDictionary (d : Dictionary) (n : String) : (ofDictionary d).keyword? n = none :=
  (Represents.ofDictionary d).stored (Text.lowercase n)

theorem observers_ofDictionary (d : Dictionary) :
    ∀ p ∈ (ofDictionary d).entries, p.2.observers = [] := by
  intro p hp
  obtain ⟨n, -, rfl⟩ := List.mem_map.mp hp
  rfl

/-! ## The actor of a model -/

theorem actor_follow (m : KeywordModel) (e : Event) : (m.follow e).actor = m.actor := by
  cases e with
  | reply r => exact congrArg Dictionary.name (m.dictionary_applyKeywords r.keywords)
  | observe observer => rfl
  | observeKey name observer =>
    unfold follow observeKey
    dsimp only
    cases m.entry? name <;> rfl

theorem actor_next (s : Life) (occurrence : Occurrence) :
    (s.next occurrence).model.actor = s.model.actor := by
  cases occurrence with
  | model e => exact actor_follow s.model e
  | reload =>
    rw [Life.next, reloaded_eq]
    cases hread : (SearchPath.ofVariable s.keysPath).read s.files s.model.actor with
    | error e => rfl
    | ok d => exact SearchPath.read_name hread
  | registry e => rfl
  | keysPath value => rfl

theorem actor_after (s : Life) (occurrences : List Occurrence) :
    (s.after occurrences).model.actor = s.model.actor := by
  induction occurrences generalizing s with
  | nil => rfl
  | cons occurrence occurrences ih => exact (ih _).trans (actor_next s occurrence)

theorem actor_of_load {registry registry' : Registry} {dirs : SearchPath} {fs : Files} {actor : String}
    {m : KeywordModel} (h : load registry dirs fs actor = .ok (registry', m)) : m.actor = actor := by
  obtain ⟨⟨r, entry⟩, hload, hm⟩ := map_eq_ok_iff.mp h
  cases hm
  obtain ⟨-, -, hentry⟩ | ⟨-, d, hd, -, rfl⟩ := Registry.load_cases hload
  · exact Registry.get?_name hentry
  · exact SearchPath.read_name hd

/-! ## Reloading and the path of the loader -/

/-- Whatever happened since a model was loaded, along whatever path, it is still the model of the same
actor, and a reload reads the first definition of that actor in the directories that the environment names
by then. It succeeds just if there is one that can be read and a dictionary can be built of it, which it
registers and leaves a fresh model of; otherwise it changes nothing. The path of the loader plays no part. So
where a forced load along that path would succeed, the reload does the same just if both paths lead to the
same dictionary, as they do if the directories of the loader alone have no definition of the actor. -/
theorem reload_follows_environment {loader : SearchPath} {actor : String} {fs : Files}
    {registry₀ registry : Registry} {m : KeywordModel}
    (h : load registry₀ loader fs actor = .ok (registry, m)) (keysPath : Option String)
    (occurrences : List Occurrence) :
    let s := (Life.mk registry fs keysPath m).after occurrences
    let environment := SearchPath.ofVariable s.keysPath
    s.model.actor = actor ∧
    (renew s.keysPath s.files (s.registry.table, s.model) =
      match s.reloaded with
      | .ok (registry', m') => (.ok (), (registry'.table, m'))
      | .error e => (.error e, (s.registry.table, s.model))) ∧
    (∀ registry' m', s.reloaded = .ok (registry', m') ↔
      ∃ text d, environment.Provides s.files actor (.text text) ∧
        Dictionary.ofSource actor text = .ok d ∧
        registry' = (s.registry.register d).1 ∧ m' = ofDictionary d) ∧
    (∀ registry' m', s.reloaded = .ok (registry', m') →
      (registry'.get? actor).map (·.dictionary) = some m'.dictionary ∧
      (∀ n, m'.keyword? n = none) ∧ m'.observers = [] ∧ ∀ p ∈ m'.entries, p.2.observers = []) ∧
    ((∀ content, ¬environment.Provides s.files actor content) →
      s.reloaded = .error (.notFound actor environment)) ∧
    (∀ content reason, environment.Provides s.files actor content → content.read = .error reason →
      s.reloaded = .error (.notReadable actor reason)) ∧
    ((∀ registry' entry, s.registry.load loader s.files actor true = .ok (registry', entry) →
        s.reloaded = .ok (registry', ofDictionary entry.dictionary)) ↔
      ∀ text d, loader.Provides s.files actor (.text text) → Dictionary.ofSource actor text = .ok d →
        ∃ text', environment.Provides s.files actor (.text text') ∧
          Dictionary.ofSource actor text' = .ok d) ∧
    ∀ own, loader = own ++ environment →
      (∀ dir ∈ own, s.files.isFile (Files.join dir (SearchPath.fileName actor)) = false) →
      ∀ registry' entry, s.registry.load loader s.files actor true = .ok (registry', entry) →
        s.reloaded = .ok (registry', ofDictionary entry.dictionary) := by
  intro s environment
  have hactor : s.model.actor = actor := by
    rw [actor_after]
    exact actor_of_load h
  have hreloaded : ∀ registry' m', s.reloaded = .ok (registry', m') ↔
      ∃ text d, environment.Provides s.files actor (.text text) ∧
        Dictionary.ofSource actor text = .ok d ∧
        registry' = (s.registry.register d).1 ∧ m' = ofDictionary d := by
    intro registry' m'
    rw [reloaded_eq_ok_iff, hactor]
    simp only [SearchPath.read_eq_ok_iff, exists_and_left]
    constructor
    · rintro ⟨d, ⟨text, htext, hd⟩, hrest⟩
      exact ⟨text, htext, d, hd, hrest⟩
    · rintro ⟨text, htext, d, hd, hrest⟩
      exact ⟨d, ⟨text, htext, hd⟩, hrest⟩
  have hagrees : (∀ registry' entry, s.registry.load loader s.files actor true = .ok (registry', entry) →
        s.reloaded = .ok (registry', ofDictionary entry.dictionary)) ↔
      ∀ d, loader.read s.files actor = .ok d → environment.read s.files actor = .ok d := by
    rw [← hactor]
    exact reloaded_agrees_iff
  refine ⟨hactor, renew_eq s, hreloaded, ?_, ?_, ?_, ?_, ?_⟩
  · intro registry' m' hok
    obtain ⟨text, d, -, hd, rfl, rfl⟩ := (hreloaded registry' m').mp hok
    have hname := Dictionary.ofSource_name hd
    refine ⟨?_, keyword?_ofDictionary d, rfl, observers_ofDictionary d⟩
    rw [Registry.get?_register, if_pos hname.symm]
    rfl
  · intro hnone
    rw [reloaded_eq, hactor, SearchPath.read_eq_notFound hnone]
    rfl
  · intro content reason hcontent hread
    rw [reloaded_eq, hactor, SearchPath.read_eq_notReadable hcontent hread]
    rfl
  · rw [hagrees]
    simp only [SearchPath.read_eq_ok_iff]
    constructor
    · exact fun hread text d htext hd => hread d ⟨text, htext, hd⟩
    · rintro hread d ⟨text, htext, hd⟩
      exact hread text d htext hd
  · rintro own rfl hown
    refine hagrees.mpr fun d hd => ?_
    rw [SearchPath.read_eq_ok_iff] at hd ⊢
    obtain ⟨text, htext, hd⟩ := hd
    exact ⟨text, (SearchPath.provides_behind hown).mp htext, hd⟩

theorem exists_ofSource {name source : String} {version : Version}
    (h : ((Document.read source).bind Definition.ofDocument?).any (fun definition =>
      definition.name == name && definition.build.toOption.any (·.version == version)) = true) :
    ∃ d, Dictionary.ofSource name source = .ok d ∧ d.version = version := by
  obtain ⟨definition, hdefinition, h⟩ := (Option.any_eq_true _ _).mp h
  rw [Bool.and_eq_true, beq_iff_eq] at h
  obtain ⟨hname, h⟩ := h
  obtain ⟨built, hbuilt, hversion⟩ := (Option.any_eq_true _ _).mp h
  exact ⟨_, Dictionary.ofSource_eq_ok_iff.mpr
    ⟨definition, built, hdefinition, hname, eq_ok_of_toOption hbuilt, rfl⟩, beq_iff_eq.mp hversion⟩

/-- A model is loaded along a path of its own, observed, and its dictionary removed from the registry. By
then the environment names a directory with a later definition, from which it is reloaded. -/
theorem reload_follows_environment_registered :
    let first := "\x7b\"name\":\"a\",\"version\":[1,0]\x7d"
    let later := "\x7b\"name\":\"a\",\"version\":[2,0]\x7d"
    let fs : Files := ⟨[(["d"], .directory), (["d", "a.json"], .file (.text first)),
      (["e"], .directory), (["e", "a.json"], .file (.text later))]⟩
    let occurrences : List Occurrence := [.model (.observe "o"), .registry (.remove "a"), .keysPath (some "e")]
    ∃ registry m, load Registry.empty ["d"] fs "a" = .ok (registry, m) ∧
      m.dictionary.version = ⟨1, 0⟩ ∧
      let s := (Life.mk registry fs none m).after occurrences
      s.model.observers = ["o"] ∧ s.registry.get? "a" = none ∧
      ∃ registry' m', s.reloaded = .ok (registry', m') ∧ m'.dictionary.version = ⟨2, 0⟩ ∧
        (registry'.get? "a").map (·.dictionary) = some m'.dictionary ∧ m'.observers = [] := by
  intro first later fs occurrences
  obtain ⟨d, hd, hversion⟩ : ∃ d, Dictionary.ofSource "a" first = .ok d ∧ d.version = ⟨1, 0⟩ :=
    exists_ofSource (by decide +kernel)
  obtain ⟨d', hd', hversion'⟩ : ∃ d, Dictionary.ofSource "a" later = .ok d ∧ d.version = ⟨2, 0⟩ :=
    exists_ofSource (by decide +kernel)
  have hread : SearchPath.read ["d"] fs "a" = .ok d :=
    SearchPath.read_eq_ok_iff.mpr ⟨first, SearchPath.provides_cons.mpr (.inl rfl), hd⟩
  have hload : load Registry.empty ["d"] fs "a" =
      .ok ((Registry.empty.register d).1, ofDictionary d) := by
    rw [load, Registry.load_fresh _ _ (.inr rfl), hread]
    rfl
  obtain ⟨-, -, hreloaded, hfresh, -⟩ := reload_follows_environment hload none occurrences
  have hnext := (hreloaded _ _).mpr
    ⟨later, d', SearchPath.provides_cons.mpr (.inl rfl), hd', rfl, rfl⟩
  obtain ⟨hregistered, -, hobservers, -⟩ := hfresh _ _ hnext
  refine ⟨_, _, hload, hversion, rfl, ?_, _, _, hnext, hversion', hregistered, hobservers⟩
  exact (Registry.get?_remove _ "a" "a").trans (if_pos rfl)

/-- A model loaded along a path of its own is not reloaded along it: a forced load of its dictionary
succeeds, but a reload finds no definition, as the environment names no directories. -/
theorem reload_misses_own_path :
    let definition := "\x7b\"name\":\"a\",\"version\":[1,0]\x7d"
    let fs : Files := ⟨[(["d"], .directory), (["d", "a.json"], .file (.text definition))]⟩
    ∃ registry m registry' entry, load Registry.empty ["d"] fs "a" = .ok (registry, m) ∧
      registry.load ["d"] fs "a" true = .ok (registry', entry) ∧
      (Life.mk registry fs none m).reloaded = .error (.notFound "a" []) := by
  intro definition fs
  obtain ⟨d, hd, -⟩ : ∃ d, Dictionary.ofSource "a" definition = .ok d ∧ d.version = ⟨1, 0⟩ :=
    exists_ofSource (by decide +kernel)
  have hread : SearchPath.read ["d"] fs "a" = .ok d :=
    SearchPath.read_eq_ok_iff.mpr ⟨definition, SearchPath.provides_cons.mpr (.inl rfl), hd⟩
  have hforced (registry : Registry) :
      registry.load ["d"] fs "a" true = .ok (registry.register d) := by
    rw [Registry.load_fresh _ _ (.inl rfl), hread]
    rfl
  have hload : load Registry.empty ["d"] fs "a" =
      .ok ((Registry.empty.register d).1, ofDictionary d) := by
    rw [load, Registry.load_fresh _ _ (.inr rfl), hread]
    rfl
  refine ⟨_, _, _, _, hload, hforced _, ?_⟩
  rw [reloaded_eq]
  show Except.map _ (SearchPath.read [] fs d.name) = _
  rw [SearchPath.read_name hread]
  rfl

end KeywordModel

end ActorHub
