import ActorHub.Proofs.Dictionary.Calls

/-!
# References to named types

An added key is held with every reference replaced by the type that was declared last under its name. What
counts as declared is said of the keys alone whose add succeeded before (`succeeded`), so that neither the
key itself nor one that was refused has a part in it.
-/

namespace ActorHub

/-! ## The type that a name stands for -/

/-- The entry declares a type under the name, and no entry behind it declares another. -/
def DeclaredLast (keys : List Key) (name : String) (s : ValueSpec) : Prop :=
  ∃ earlier later, entriesOf keys = earlier ++ s :: later ∧ s.name? = some name ∧
    ∀ t ∈ later, t.name? ≠ some name

/-- The entry with the type in place that it refers to, if there is one. -/
def ValueSpec.writtenOut (before : List Key) : ValueSpec → ValueSpec
  | byName name => (lastNamed before name).getD (byName name)
  | s => s

section
variable {before : List Key} {s r : ValueSpec} {name : String}

theorem lastNamed_eq_some_iff : lastNamed before name = some s ↔ DeclaredLast before name s := by
  rw [lastNamed, List.find?_eq_some_iff_append]
  constructor
  · rintro ⟨hname, later, earlier, hentries, hlater⟩
    refine ⟨earlier.reverse, later.reverse, ?_, beq_iff_eq.mp hname, ?_⟩
    · rw [List.reverse_eq_iff.mp hentries]
      simp
    · intro t ht
      simpa using hlater t (List.mem_reverse.mp ht)
  · rintro ⟨earlier, later, hentries, hname, hlater⟩
    refine ⟨beq_iff_eq.mpr hname, later.reverse, earlier.reverse, by simp [hentries], ?_⟩
    intro t ht
    simpa using hlater t (List.mem_reverse.mp ht)

theorem named_cases (h : s.name? = some name) : (∃ type, s = .single type) ∨ ∃ c, s = .compound c := by
  cases s with
  | single type => exact .inl ⟨type, rfl⟩
  | compound c => exact .inr ⟨c, rfl⟩
  | repeated _ | byName _ => cases h

theorem writtenOut_of_resolves (h : s.Resolves before r) : s.writtenOut before = r := by
  cases h with
  | kept hs =>
    cases s with
    | byName name => cases hs
    | single _ | repeated _ | compound _ => rfl
  | found hs => rw [ValueSpec.writtenOut, hs, Option.getD_some]

theorem map_writtenOut {specs rs : List ValueSpec} (h : List.Forall₂ (ValueSpec.Resolves before) specs rs) :
    specs.map (ValueSpec.writtenOut before) = rs := by
  induction h with
  | nil => rfl
  | cons hs hrest ih => rw [List.map_cons, writtenOut_of_resolves hs, ih]

theorem resolveSpec_byName (h : lastNamed before name = none) :
    ValueShape.resolveSpec (typesOf before) (.byName name) = .error (.unresolved name) := by
  rw [← lookup_typesOf, Option.map_eq_none_iff] at h
  simp only [ValueShape.resolveSpec, h]

theorem exists_resolveSpec (h : ∀ n, s = .byName n → ∃ t, lastNamed before n = some t) :
    ∃ r, ValueShape.resolveSpec (typesOf before) s = .ok r := by
  cases s with
  | byName name =>
    obtain ⟨t, ht⟩ := h name rfl
    exact ⟨t, resolveSpec_eq_ok_iff.mpr (.found ht)⟩
  | single _ | repeated _ | compound _ => exact ⟨_, rfl⟩

theorem resolve_eq_error_of_first {shape : ValueShape} {front back : List ValueSpec}
    (hspecs : shape.specs = front ++ .byName name :: back)
    (hfront : ∀ n, .byName n ∈ front → ∃ t, lastNamed before n = some t)
    (hname : lastNamed before name = none) : shape.resolve (typesOf before) = .error (.unresolved name) := by
  have hsteps : ValueShape.resolveSpecs (typesOf before) shape.specs = .error (.unresolved name) := by
    rw [hspecs]
    refine mapM_append_eq_error ?_ (resolveSpec_byName hname)
    intro s hs
    exact exists_resolveSpec fun n hn => hfront n (hn ▸ hs)
  unfold ValueShape.resolve
  split
  · next h =>
    rw [hsteps] at h
    cases h
  · next h =>
    rw [hsteps] at h
    cases h
    rfl

end

namespace Dictionary

/-! ## Rows of adds -/

def succeeded (d : Dictionary) : List Key → List Key
  | [] => []
  | k :: rest =>
    match d.add k with
    | .ok d' => k :: d'.succeeded rest
    | .error _ => d.succeeded rest

section
variable {d d' : Dictionary} {before ks : List Key} {k : Key} {e : DictionaryError}

theorem after_append (d : Dictionary) (calls later : List Call) :
    d.after (calls ++ later) = (d.after calls).after later :=
  List.foldl_append

theorem after_add_of_ok (h : d.add k = .ok d') (calls : List Call) :
    d.after (.add k :: calls) = d'.after calls := by
  simp only [after, List.foldl_cons, Call.run, h]

theorem after_add_of_error (h : d.add k = .error e) (calls : List Call) :
    d.after (.add k :: calls) = d.after calls := by
  simp only [after, List.foldl_cons, Call.run, h]

theorem succeeded_cons_of_ok (h : d.add k = .ok d') (ks : List Key) :
    d.succeeded (k :: ks) = k :: d'.succeeded ks := by
  rw [succeeded, h]

theorem succeeded_cons_of_error (h : d.add k = .error e) (ks : List Key) :
    d.succeeded (k :: ks) = d.succeeded ks := by
  rw [succeeded, h]

theorem succeeded_append (d : Dictionary) (ks later : List Key) :
    d.succeeded (ks ++ later) = d.succeeded ks ++ (d.after (ks.map .add)).succeeded later := by
  induction ks generalizing d with
  | nil => rfl
  | cons k ks ih =>
    rw [List.cons_append, List.map_cons]
    cases hadd : d.add k with
    | ok d' =>
      rw [succeeded_cons_of_ok hadd, succeeded_cons_of_ok hadd, after_add_of_ok hadd, ih, List.cons_append]
    | error e => rw [succeeded_cons_of_error hadd, succeeded_cons_of_error hadd, after_add_of_error hadd, ih]

theorem Loaded.succeeded (h : Loaded before d) (ks : List Key) :
    Loaded (before ++ d.succeeded ks) (d.after (ks.map .add)) := by
  induction ks generalizing before d with
  | nil =>
    rw [Dictionary.succeeded, List.append_nil]
    exact h
  | cons k ks ih =>
    rw [List.map_cons]
    by_cases hk : k.Fits before
    · obtain ⟨d', hadd, hd'⟩ := h.add hk
      rw [after_add_of_ok hadd, succeeded_cons_of_ok hadd, List.append_cons]
      exact ih hd'
    · obtain ⟨e, hadd⟩ := h.exists_refuse hk
      rw [after_add_of_error hadd, succeeded_cons_of_error hadd]
      exact ih h

theorem after_skip (h : (d.after (ks.map .add)).add k = .error e) (later : List Key) :
    d.after ((ks ++ k :: later).map .add) = d.after ((ks ++ later).map .add) ∧
      d.succeeded (ks ++ k :: later) = d.succeeded (ks ++ later) := by
  constructor
  · rw [List.map_append, List.map_cons, after_append, after_add_of_error h, List.map_append, after_append]
  · rw [succeeded_append, succeeded_cons_of_error h, succeeded_append]

end

end Dictionary

/-! ## Keys with references -/

/-- The key as it is held behind others, with types in place of its references. It reads keywords as does
a key that is declared with these types. -/
structure Key.HeldBehind (history : List Key) (k stored : Key) : Prop where
  entries : stored.shape.specs = k.shape.specs.map (ValueSpec.writtenOut history)
  rest : stored = { k with shape := stored.shape }
  declared : ∀ n, .byName n ∈ k.shape.specs →
    DeclaredLast history n (ValueSpec.writtenOut history (.byName n))
  reads : ∃ written, Key.make k.name (k.shape.specs.map (ValueSpec.writtenOut history)) = .ok written ∧
    ∀ keyword, stored.consume keyword = written.consume keyword

theorem Key.StoredAs.heldBehind {history : List Key} {k stored : Key} (h : k.StoredAs history stored) :
    k.HeldBehind history stored := by
  have hentries : stored.shape.specs = k.shape.specs.map (ValueSpec.writtenOut history) :=
    (map_writtenOut h.entries).symm
  refine ⟨hentries, h.rest, ?_, ?_⟩
  · intro n hn
    obtain ⟨r, -, hr⟩ := exists_right_of_forall₂ h.entries hn
    rw [writtenOut_of_resolves hr]
    cases hr with
    | kept hs => cases hs
    | found hs => exact lastNamed_eq_some_iff.mp hs
  · -- only the last of the types put in place varies, so a key may be declared with them
    refine ⟨⟨k.name, stored.shape, none, none, none, none⟩, ?_, ?_⟩
    · rw [← hentries, Key.make, ValueShape.ofSpecs_eq_ok_iff.mpr ⟨rfl, h.counts⟩]
      rfl
    · intro keyword
      rw [h.rest]
      rfl

namespace Dictionary

section
variable {d : Dictionary} {before : List Key} {k : Key}

theorem keys_of_add {d' : Dictionary} (h : d.add k = .ok d') :
    ∃ shape, k.shape.resolve d.types = .ok shape ∧ d'.keys = d.keys ++ [{ k with shape }] := by
  rw [add] at h
  split at h
  · cases h
  · cases hshape : k.shape.resolve d.types with
    | error e =>
      rw [hshape] at h
      cases h
    | ok shape =>
      rw [hshape] at h
      cases h
      exact ⟨shape, rfl, rfl⟩

theorem Loaded.add_written_out (h : Loaded before d)
    (hnew : ¬∃ b ∈ before, b.registeredName = k.registeredName)
    (hknown : ∀ n, .byName n ∈ k.shape.specs → ∃ s, DeclaredLast before n s) :
    ∃ d' stored, d.add k = .ok d' ∧ d'.lookup k.uniqueName = .ok stored ∧
      d'.keys = d.keys ++ [stored] ∧ k.HeldBehind before stored := by
  have hfits : k.Fits before := by
    refine ⟨fun b hb hname => hnew ⟨b, hb, hname⟩, ?_⟩
    intro n hn
    obtain ⟨s, hs, href⟩ := List.mem_filterMap.mp hn
    cases s with
    | byName m =>
      cases href
      obtain ⟨t, ht⟩ := hknown n hs
      exact ⟨t, lastNamed_eq_some (lastNamed_eq_some_iff.mpr ht)⟩
    | single _ | repeated _ | compound _ => cases href
  obtain ⟨d', hadd, hd'⟩ := h.add hfits
  obtain ⟨shape, hshape, hkeys⟩ := keys_of_add hadd
  rw [h.types] at hshape
  obtain ⟨hentries, hcounts⟩ := resolve_eq_ok_iff.mp hshape
  have hstored : k.StoredAs before { k with shape } := ⟨hentries, hcounts, rfl⟩
  refine ⟨d', { k with shape }, hadd, ?_, hkeys, hstored.heldBehind⟩
  rw [lookup_eq_ok_iff, get?_eq_some_iff hd'.stored.nodup, hkeys]
  exact ⟨List.mem_append_right _ List.mem_cons_self, rfl⟩

theorem Loaded.add_unresolved (h : Loaded before d)
    (hnew : ¬∃ b ∈ before, b.registeredName = k.registeredName) {n : String} {front back : List ValueSpec}
    (hspecs : k.shape.specs = front ++ .byName n :: back)
    (hfront : ∀ m, .byName m ∈ front → ∃ s, DeclaredLast before m s)
    (hnone : ¬∃ s, DeclaredLast before n s) : d.add k = .error (.unresolved n) := by
  simp only [← lastNamed_eq_some_iff] at hfront hnone
  have hn : lastNamed before n = none := Option.eq_none_iff_forall_ne_some.mpr fun s hs => hnone ⟨s, hs⟩
  have hresolve := resolve_eq_error_of_first hspecs hfront hn
  rw [Dictionary.add, if_neg (mt h.contains_iff.mp hnew), h.types, hresolve]
  rfl

end

/-- Each reference of an added key stands for the type that was declared last under its name by the keys
whose add succeeded before, whatever else was tried, and the first that stands for none makes the add fail.
A name that is taken is found before any reference is read. -/
theorem references_resolved_from_history {name : String} {version : Version} {start : Dictionary}
    (h : make name version = .ok start) (ks : List Key) (k : Key) :
    let d := start.after (ks.map .add)
    let history := start.succeeded ks
    let taken := ∃ b ∈ history, b.registeredName = k.registeredName
    (taken → d.add k = .error (.notUnique k.uniqueName)) ∧
    (¬taken → (∀ n, .byName n ∈ k.shape.specs → ∃ s, DeclaredLast history n s) →
      ∃ d' stored, d.add k = .ok d' ∧ d'.lookup k.uniqueName = .ok stored ∧
        d'.keys = d.keys ++ [stored] ∧ k.HeldBehind history stored) ∧
    (¬taken → ∀ front n back, k.shape.specs = front ++ .byName n :: back →
      (∀ m, .byName m ∈ front → ∃ s, DeclaredLast history m s) → (¬∃ s, DeclaredLast history n s) →
      d.add k = .error (.unresolved n)) ∧
    (∀ e, d.add k = .error e → insert k d.store = (.error e, d.store) ∧ ∀ later,
      start.after ((ks ++ k :: later).map .add) = start.after ((ks ++ later).map .add) ∧
      start.succeeded (ks ++ k :: later) = start.succeeded (ks ++ later)) ∧
    ∀ n s, DeclaredLast history n s → (∃ type, s = .single type) ∨ ∃ c, s = .compound c := by
  intro d history taken
  have hd : Loaded history d := (loaded_make h).succeeded ks
  refine ⟨?_, hd.add_written_out, ?_, ?_, ?_⟩
  · intro htaken
    rw [add, if_pos (hd.contains_iff.mpr htaken)]
  · intro hnew front n back hspecs hfront hnone
    exact hd.add_unresolved hnew hspecs hfront hnone
  · intro e he
    refine ⟨?_, after_skip he⟩
    rw [insert_eq, he]
  · rintro n s ⟨-, -, -, hname, -⟩
    exact named_cases hname

/-- Neither the refused keys nor the added one itself declare the type that its reference stands for. -/
theorem references_skip_refused_keys :
    let key (name : String) (specs : List ValueSpec) (h : onlyLastVaries specs = true) : Key :=
      ⟨name, .counted specs h, none, none, none, none⟩
    let deg (kind : ValueKind) : ValueSpec := .single { ValueType.ofKind kind with name := some "deg" }
    let ks := [key "Angle" [deg .float] rfl, key "Rate" [deg .int] rfl, key "ANGLE" [deg .string] rfl,
      key "Lost" [deg .string, .byName "rad"] rfl]
    let start : Dictionary := ⟨"tcc", ⟨1, 2⟩, [], [], none⟩
    let d := start.after (ks.map .add)
    make "tcc" ⟨1, 2⟩ = .ok start ∧
    (∃ d' stored, d.add (key "Pos" [.byName "deg", deg .double] rfl) = .ok d' ∧
      d'.lookup "Pos" = .ok stored ∧ stored.shape.specs.map ValueSpec.display = ["Int", "Double"]) ∧
    d.add (key "Far" [.byName "deg", .byName "rad"] rfl) = .error (.unresolved "rad") := by
  intro key deg ks start d
  have hmake : make "tcc" ⟨1, 2⟩ = .ok start := rfl
  have hdeg : ∃ s, DeclaredLast (start.succeeded ks) "deg" s := by
    simp only [← lastNamed_eq_some_iff]
    exact Option.isSome_iff_exists.mp (by decide)
  have hrad : ¬∃ s, DeclaredLast (start.succeeded ks) "rad" s := by
    simp only [← lastNamed_eq_some_iff]
    exact Option.isSome_iff_exists.not.mp (by decide)
  obtain ⟨-, hadd, -⟩ :=
    references_resolved_from_history hmake ks (key "Pos" [.byName "deg", deg .double] rfl)
  obtain ⟨-, -, hfail, -⟩ :=
    references_resolved_from_history hmake ks (key "Far" [.byName "deg", .byName "rad"] rfl)
  refine ⟨hmake, ?_, ?_⟩
  · obtain ⟨d', stored, hd', hlookup, -, hheld⟩ :=
      hadd (by decide) (by simpa [key, deg, ValueShape.counted] using hdeg)
    refine ⟨d', stored, hd', hlookup, ?_⟩
    rw [hheld.entries]
    decide
  · exact hfail (by decide) [.byName "deg"] "rad" [] rfl (by simpa using hdeg) hrad

/-- Of a key whose name is taken no reference is read, and the fault names the key. -/
theorem taken_name_before_references :
    ¬∀ (name : String) (version : Version) (start : Dictionary), make name version = .ok start →
      ∀ (ks : List Key) (k : Key) (front : List ValueSpec) (n : String) (back : List ValueSpec),
        k.shape.specs = front ++ .byName n :: back →
        (∀ m, .byName m ∈ front → ∃ s, DeclaredLast (start.succeeded ks) m s) →
        (¬∃ s, DeclaredLast (start.succeeded ks) n s) →
        (start.after (ks.map .add)).add k = .error (.unresolved n) := by
  intro h
  let start : Dictionary := ⟨"test", ⟨1, 0⟩, [], [], none⟩
  let held : Key := ⟨"a", .counted [] rfl, none, none, none, none⟩
  let k : Key := ⟨"a", .counted [.byName "x"] rfl, none, none, none, none⟩
  have hnone : ¬∃ s, DeclaredLast (start.succeeded [held]) "x" s := by
    simp only [← lastNamed_eq_some_iff]
    exact Option.isSome_iff_exists.not.mp (by decide)
  have hadd := h "test" ⟨1, 0⟩ start rfl [held] k [] "x" [] rfl nofun hnone
  have htaken : (start.after ([held].map .add)).contains k.uniqueName = true := by decide
  rw [add, if_pos htaken] at hadd
  cases hadd

end Dictionary

end ActorHub
