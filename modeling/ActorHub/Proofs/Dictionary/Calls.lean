import ActorHub.Dictionary
import ActorHub.Proofs.Outcome
import ActorHub.Proofs.ValueShape.Counts
import Mathlib.Data.List.Nodup

/-!
# Calls on a dictionary

What a dictionary holds after any calls that add keys. Which keys were added is said of the keys alone:
a key fits behind others if its name is new among theirs and they declare every type it refers to, and
the calls add the keys that fit behind those added before (`added`). `Loaded` ties the parts of the
dictionary to those keys; adding one more key that fits keeps it (`Loaded.add`), and a key that does not
fit is refused (`Loaded.refuse`).
-/

namespace ActorHub

/-! ## References -/

def ValueSpec.reference? : ValueSpec → Option String
  | byName name => some name
  | single _ | repeated _ | compound _ => none

def entriesOf (keys : List Key) : List ValueSpec :=
  keys.flatMap (·.shape.specs)

def lastNamed (keys : List Key) (name : String) : Option ValueSpec :=
  (entriesOf keys).reverse.find? (·.name? == some name)

/-- What an entry is once references are replaced by what keys before it declared. -/
inductive ValueSpec.Resolves (before : List Key) : ValueSpec → ValueSpec → Prop where
  | kept {s : ValueSpec} (hs : s.reference? = none) : Resolves before s s
  | found {name : String} {s : ValueSpec} (hs : lastNamed before name = some s) :
      Resolves before (.byName name) s

def typesOf (keys : List Key) : ValueShape.NamedTypes :=
  (entriesOf keys).reverse.filterMap ValueSpec.declared?

section
variable {before : List Key} {s r : ValueSpec} {name : String}

theorem reference?_eq_none_iff : s.reference? = none ↔ s.isReference = false := by
  cases s with
  | byName name => exact ⟨nofun, nofun⟩
  | single _ | repeated _ | compound _ => exact ⟨fun _ => rfl, fun _ => rfl⟩

theorem declared?_of_unnamed (h : s.name? = none) : s.declared? = none := by
  cases s with
  | single t => exact Option.map_eq_none_iff.mpr h
  | compound c => exact Option.map_eq_none_iff.mpr h
  | repeated _ | byName _ => rfl

theorem declared?_of_name (h : s.name? = some name) :
    ∃ t : NamedType, s.declared? = some (name, t) ∧ t.toSpec = s := by
  cases s with
  | single t => exact ⟨.single t, congrArg (Option.map _) h, rfl⟩
  | compound c => exact ⟨.compound c, congrArg (Option.map _) h, rfl⟩
  | repeated _ | byName _ => cases h

theorem lookup_declared (specs : List ValueSpec) (name : String) :
    ((specs.filterMap ValueSpec.declared?).lookup name).map NamedType.toSpec =
      specs.find? (·.name? == some name) := by
  induction specs with
  | nil => rfl
  | cons s specs ih =>
    rw [List.find?_cons, ← ih]
    cases hs : s.name? with
    | none =>
      rw [List.filterMap_cons_none (declared?_of_unnamed hs)]
      rfl
    | some n =>
      obtain ⟨t, ht, rfl⟩ := declared?_of_name hs
      rw [List.filterMap_cons_some ht, List.lookup_cons, Option.some_beq_some]
      by_cases hn : n = name
      · simp [hn]
      · simp [beq_eq_false_iff_ne.mpr hn, beq_eq_false_iff_ne.mpr (Ne.symm hn)]

theorem lookup_typesOf : ((typesOf before).lookup name).map NamedType.toSpec = lastNamed before name :=
  lookup_declared _ name

theorem resolveSpec_eq_ok_iff :
    ValueShape.resolveSpec (typesOf before) s = .ok r ↔ s.Resolves before r := by
  constructor
  · intro h
    unfold ValueShape.resolveSpec at h
    split at h
    · next name =>
      split at h
      · next t ht =>
        cases h
        exact .found (by rw [← lookup_typesOf, ht, Option.map_some])
      · cases h
    · next hs =>
      cases h
      refine .kept (Option.eq_none_iff_forall_ne_some.mpr fun name hname => ?_)
      cases s with
      | byName _ => exact absurd rfl (hs _)
      | single _ | repeated _ | compound _ => cases hname
  · intro h
    cases h with
    | kept hs =>
      cases s with
      | byName name => cases hs
      | single _ | repeated _ | compound _ => rfl
    | @found name _ hs =>
      rw [← lookup_typesOf] at hs
      obtain ⟨t, ht, rfl⟩ := Option.map_eq_some_iff.mp hs
      simp only [ValueShape.resolveSpec, ht]

theorem resolve_eq_ok_iff {shape shape' : ValueShape} :
    shape.resolve (typesOf before) = .ok shape' ↔
      List.Forall₂ (ValueSpec.Resolves before) shape.specs shape'.specs ∧
        shape'.counts = .ofSpecs shape'.specs := by
  have hspecs : List.Forall₂ (ValueSpec.Resolves before) shape.specs shape'.specs ↔
      ValueShape.resolveSpecs (typesOf before) shape.specs = .ok shape'.specs := by
    simp only [ValueShape.resolveSpecs, mapM_eq_ok_iff, resolveSpec_eq_ok_iff]
  rw [hspecs]
  unfold ValueShape.resolve
  split
  · next specs h =>
    constructor
    · rintro ⟨⟩
      exact ⟨h, rfl⟩
    · rintro ⟨h', hcounts⟩
      obtain ⟨specs', counts, hlast⟩ := shape'
      obtain rfl : specs = specs' := Except.ok.inj (h.symm.trans h')
      obtain rfl : counts = .ofSpecs specs := hcounts
      rfl
  · next e h =>
    rw [h]
    constructor
    · intro hok
      cases hok
    · rintro ⟨hok, -⟩
      cases hok

theorem lastNamed_eq_some (h : lastNamed before name = some s) :
    s ∈ entriesOf before ∧ s.name? = some name := by
  have hname : (s.name? == some name) = true :=
    List.find?_some (p := fun s : ValueSpec => s.name? == some name) h
  exact ⟨List.mem_reverse.mp (List.mem_of_find?_eq_some h), beq_iff_eq.mp hname⟩

theorem isReference_of_resolves (h : s.Resolves before r) : r.isReference = false := by
  cases h with
  | kept hs => exact reference?_eq_none_iff.mp hs
  | found hs =>
    -- what has a name is no reference
    obtain ⟨-, hname⟩ := lastNamed_eq_some hs
    cases r with
    | byName name => cases hname
    | single _ | repeated _ | compound _ => rfl

theorem lastNamed_eq_none_iff :
    lastNamed before name = none ↔ ¬∃ s ∈ entriesOf before, s.name? = some name := by
  simp [lastNamed]

theorem resolve_eq_error {shape : ValueShape} {e : DictionaryError}
    (h : shape.resolve (typesOf before) = .error e) :
    ∃ name ∈ shape.specs.filterMap ValueSpec.reference?,
      lastNamed before name = none ∧ e = .unresolved name := by
  have hspecs : ValueShape.resolveSpecs (typesOf before) shape.specs = .error e := by
    unfold ValueShape.resolve at h
    split at h
    · cases h
    · next e' h' =>
      cases h
      exact h'
  obtain ⟨s, hs, he⟩ := exists_of_mapM_eq_error hspecs
  unfold ValueShape.resolveSpec at he
  split at he
  · next name =>
    split at he
    · cases he
    · next hnone =>
      cases he
      refine ⟨name, List.mem_filterMap.mpr ⟨.byName name, hs, rfl⟩, ?_, rfl⟩
      rw [← lookup_typesOf, hnone, Option.map_none]
  · cases he

end

/-! ## Keys that fit -/

/-- The name of the key is new among the keys before it, and they declare what it refers to. -/
def Key.Fits (before : List Key) (k : Key) : Prop :=
  (∀ b ∈ before, b.registeredName ≠ k.registeredName) ∧
    ∀ name ∈ k.shape.specs.filterMap ValueSpec.reference?, ∃ s ∈ entriesOf before, s.name? = some name

instance (before : List Key) (k : Key) : Decidable (k.Fits before) :=
  inferInstanceAs (Decidable (_ ∧ _))

structure Key.StoredAs (before : List Key) (k stored : Key) : Prop where
  entries : List.Forall₂ (ValueSpec.Resolves before) k.shape.specs stored.shape.specs
  counts : stored.shape.counts = .ofSpecs stored.shape.specs
  rest : stored = { k with shape := stored.shape }

inductive Stored : List Key → List Key → Prop where
  | nil : Stored [] []
  | snoc {before stored : List Key} {k r : Key} (h : Stored before stored) (hfits : k.Fits before)
      (hk : k.StoredAs before r) : Stored (before ++ [k]) (stored ++ [r])

/-- The leading keys that fit, each behind those before it. -/
def gather (before : List Key) : List Key → List Key
  | [] => before
  | k :: rest => if k.Fits before then gather (before ++ [k]) rest else before

section
variable {before stored ks : List Key} {k r : Key}

theorem Key.StoredAs.registeredName (h : k.StoredAs before r) : r.registeredName = k.registeredName := by
  rw [h.rest]
  rfl

namespace Stored

theorem names (h : Stored before stored) :
    stored.map Key.registeredName = before.map Key.registeredName := by
  induction h with
  | nil => rfl
  | snoc h hfits hk ih =>
    rw [List.map_append, List.map_append, ih, List.map_singleton, List.map_singleton,
      hk.registeredName]

theorem nodup (h : Stored before stored) : (stored.map Key.registeredName).Nodup := by
  induction h with
  | nil => exact List.nodup_nil
  | snoc h hfits hk ih =>
    rw [List.map_append, List.map_singleton, List.nodup_append]
    refine ⟨ih, List.pairwise_singleton _ _, ?_⟩
    rw [h.names]
    intro n hn m hm
    obtain ⟨b, hb, rfl⟩ := List.mem_map.mp hn
    obtain rfl := List.mem_singleton.mp hm
    rw [hk.registeredName]
    exact hfits.1 b hb

theorem exists_storedAs (h : Stored before stored) (hr : r ∈ stored) :
    ∃ history k, Key.StoredAs history k r := by
  induction h with
  | nil => cases hr
  | snoc h hfits hk ih =>
    obtain hr | hr := List.mem_append.mp hr
    · exact ih hr
    · obtain rfl := List.mem_singleton.mp hr
      exact ⟨_, _, hk⟩

theorem no_reference (h : Stored before stored) (hr : r ∈ stored) :
    ∀ s ∈ r.shape.specs, s.isReference = false := by
  obtain ⟨_, _, hk⟩ := h.exists_storedAs hr
  intro s hs
  obtain ⟨t, -, hresolves⟩ := exists_left_of_forall₂ hk.entries hs
  exact isReference_of_resolves hresolves

end Stored

end

/-! ## The parts of a dictionary -/

namespace Dictionary

/-- The dictionary holds the added keys and the types they declare. -/
structure Loaded (added : List Key) (d : Dictionary) : Prop where
  stored : Stored added d.keys
  types : d.types = typesOf added

section
variable {d : Dictionary} {before ks : List Key} {k : Key}

theorem get?_eq_some_iff {name : String} (h : (d.keys.map Key.registeredName).Nodup) :
    d.get? name = some k ↔ k ∈ d.keys ∧ k.registeredName = Text.lowercase name := by
  constructor
  · intro hk
    have hname : (k.registeredName == Text.lowercase name) = true :=
      List.find?_some (p := fun k : Key => k.registeredName == Text.lowercase name) hk
    exact ⟨List.mem_of_find?_eq_some hk, beq_iff_eq.mp hname⟩
  · rintro ⟨hk, hname⟩
    obtain ⟨k', hk'⟩ : ∃ k', d.get? name = some k' :=
      Option.isSome_iff_exists.mp (List.find?_isSome.mpr ⟨k, hk, beq_iff_eq.mpr hname⟩)
    have hname' : (k'.registeredName == Text.lowercase name) = true :=
      List.find?_some (p := fun k : Key => k.registeredName == Text.lowercase name) hk'
    have hsame : k' = k := List.inj_on_of_nodup_map h (List.mem_of_find?_eq_some hk') hk
      ((beq_iff_eq.mp hname').trans hname.symm)
    rw [hk', hsame]

theorem contains_iff {name : String} :
    d.contains name = true ↔ ∃ k ∈ d.keys, k.registeredName = Text.lowercase name := by
  rw [contains, get?, List.find?_isSome]
  simp only [beq_iff_eq]

theorem Loaded.contains_iff (h : Loaded before d) :
    d.contains k.uniqueName = true ↔ ∃ b ∈ before, b.registeredName = k.registeredName := by
  have hmem : ∀ n, n ∈ d.keys.map Key.registeredName ↔ n ∈ before.map Key.registeredName := by
    rw [h.stored.names]
    exact fun n => Iff.rfl
  simp only [List.mem_map] at hmem
  rw [Dictionary.contains_iff]
  exact hmem _

theorem typesOf_concat : typesOf (before ++ [k]) = k.shape.declared ++ typesOf before := by
  simp [typesOf, entriesOf, ValueShape.declared, List.filterMap_reverse]

theorem Loaded.add (h : Loaded before d) (hk : k.Fits before) :
    ∃ d', d.add k = .ok d' ∧ Loaded (before ++ [k]) d' := by
  have hnew : ¬d.contains k.uniqueName = true := by
    rw [h.contains_iff]
    rintro ⟨b, hb, hname⟩
    exact hk.1 b hb hname
  obtain ⟨shape, hshape⟩ : ∃ shape, k.shape.resolve d.types = .ok shape := by
    rw [h.types]
    cases hresolve : k.shape.resolve (typesOf before) with
    | ok shape => exact ⟨shape, rfl⟩
    | error e =>
      obtain ⟨name, hname, hnone, -⟩ := resolve_eq_error hresolve
      exact absurd (hk.2 name hname) (lastNamed_eq_none_iff.mp hnone)
  refine ⟨_, by rw [Dictionary.add, if_neg hnew, hshape]; rfl, ?_, ?_⟩
  · rw [h.types] at hshape
    obtain ⟨hentries, hcounts⟩ := resolve_eq_ok_iff.mp hshape
    exact .snoc h.stored hk ⟨hentries, hcounts, rfl⟩
  · rw [typesOf_concat, ← h.types]

theorem Loaded.refuse (h : Loaded before d) (hk : ¬k.Fits before) :
    ((∃ b ∈ before, b.registeredName = k.registeredName) ∧
      d.add k = .error (.notUnique k.uniqueName)) ∨
    ∃ name ∈ k.shape.specs.filterMap ValueSpec.reference?,
      lastNamed before name = none ∧ d.add k = .error (.unresolved name) := by
  by_cases hnew : d.contains k.uniqueName = true
  · exact .inl ⟨h.contains_iff.mp hnew, by rw [Dictionary.add, if_pos hnew]⟩
  · right
    cases hresolve : k.shape.resolve (typesOf before) with
    | ok shape =>
      refine absurd ⟨?_, ?_⟩ hk
      · intro b hb hname
        exact hnew (h.contains_iff.mpr ⟨b, hb, hname⟩)
      · intro name hname
        obtain ⟨s, hs, href⟩ := List.mem_filterMap.mp hname
        obtain ⟨r, -, hr⟩ := exists_right_of_forall₂ (resolve_eq_ok_iff.mp hresolve).1 hs
        cases hr with
        | kept hs => rw [hs] at href; cases href
        | found hr =>
          cases href
          exact ⟨r, lastNamed_eq_some hr⟩
    | error e =>
      obtain ⟨name, hname, hnone, rfl⟩ := resolve_eq_error hresolve
      exact ⟨name, hname, hnone, by rw [Dictionary.add, if_neg hnew, h.types, hresolve]; rfl⟩

theorem extend_cons_of_ok {d' : Dictionary} (h : d.add k = .ok d') :
    d.extend (k :: ks) = d'.extend ks := by
  rw [extend, h]

theorem extend_cons_of_error {e : DictionaryError} (h : d.add k = .error e) :
    d.extend (k :: ks) = (d, some e) := by
  rw [extend, h]

theorem Loaded.exists_refuse (h : Loaded before d) (hk : ¬k.Fits before) : ∃ e, d.add k = .error e := by
  obtain ⟨-, he⟩ | ⟨name, -, -, he⟩ := h.refuse hk
  · exact ⟨_, he⟩
  · exact ⟨_, he⟩

theorem Loaded.extend (h : Loaded before d) : Loaded (gather before ks) (d.extend ks).1 := by
  induction ks generalizing before d with
  | nil => exact h
  | cons k ks ih =>
    unfold gather
    by_cases hk : k.Fits before
    · obtain ⟨d', hadd, hd'⟩ := h.add hk
      rw [if_pos hk, extend_cons_of_ok hadd]
      exact ih hd'
    · obtain ⟨e, he⟩ := h.exists_refuse hk
      rw [if_neg hk, extend_cons_of_error he]
      exact h

theorem Loaded.extend_eq_none_iff (h : Loaded before d) :
    (d.extend ks).2 = none ↔ gather before ks = before ++ ks := by
  induction ks generalizing before d with
  | nil => exact ⟨fun _ => (List.append_nil before).symm, fun _ => rfl⟩
  | cons k ks ih =>
    unfold gather
    by_cases hk : k.Fits before
    · obtain ⟨d', hadd, hd'⟩ := h.add hk
      rw [if_pos hk, extend_cons_of_ok hadd, ih hd', List.append_assoc]
      rfl
    · obtain ⟨e, he⟩ := h.exists_refuse hk
      rw [if_neg hk, extend_cons_of_error he]
      simp

theorem extend_fails {d' : Dictionary} {e : DictionaryError} (h : d.extend ks = (d', some e)) :
    ∃ before k after, ks = before ++ k :: after ∧ d.extend before = (d', none) ∧ d'.add k = .error e := by
  induction ks generalizing d with
  | nil => cases h
  | cons k ks ih =>
    cases hadd : d.add k with
    | ok d₁ =>
      rw [extend_cons_of_ok hadd] at h
      obtain ⟨before, k', after, rfl, hbefore, he⟩ := ih h
      exact ⟨k :: before, k', after, rfl, by rw [extend_cons_of_ok hadd, hbefore], he⟩
    | error e' =>
      rw [extend_cons_of_error hadd] at h
      cases h
      exact ⟨[], k, ks, rfl, rfl, hadd⟩

end

/-! ## Calls -/

inductive Call where
  | add (k : Key)
  | extend (keys : List Key)

namespace Call

def keys : Call → List Key
  | add k => [k]
  | extend keys => keys

def run (d : Dictionary) : Call → Dictionary × Option DictionaryError
  | add k =>
    match d.add k with
    | .ok d => (d, none)
    | .error e => (d, some e)
  | extend keys => d.extend keys

end Call

def after (d : Dictionary) (calls : List Call) : Dictionary :=
  calls.foldl (fun d call => (call.run d).1) d

/-- The keys that calls on an empty dictionary add. -/
def added (calls : List Call) : List Key :=
  calls.foldl (fun before call => gather before call.keys) []

section
variable {d : Dictionary} {before : List Key}

theorem run_eq_extend (d : Dictionary) (call : Call) : call.run d = d.extend call.keys := by
  cases call with
  | add k =>
    cases hadd : d.add k with
    | ok d' => simp only [Call.run, Call.keys, hadd, extend]
    | error e => simp only [Call.run, Call.keys, hadd, extend]
  | extend keys => rfl

theorem Loaded.after (h : Loaded before d) (calls : List Call) :
    Loaded (calls.foldl (fun before call => gather before call.keys) before) (d.after calls) := by
  induction calls generalizing before d with
  | nil => exact h
  | cons call calls ih =>
    refine ih (d := (call.run d).1) ?_
    rw [run_eq_extend]
    exact h.extend

end

/-! ## Writes in place -/

/-- The parts of a dictionary that change, with the places of the keys under their names. -/
structure Store where
  keys : List Key
  index : String → Option Nat
  types : ValueShape.NamedTypes

namespace Store

def place? (s : Store) (name : String) : Option Nat :=
  s.index (Text.lowercase name)

def contains (s : Store) (name : String) : Bool :=
  (s.place? name).isSome

def get? (s : Store) (name : String) : Option Key :=
  (s.place? name).bind fun i => s.keys[i]?

end Store

/-- A computation that writes to a store. A fault leaves what was written before it. -/
abbrev Writing := ExceptT DictionaryError (StateM Store)

def enter (k : Key) (shape : ValueShape) : Writing Unit := do
  modify fun s => { s with types := k.shape.declared ++ s.types }
  modify fun s => { s with
    index := fun n => if n = k.registeredName then some s.keys.length else s.index n }
  modify fun s => { s with keys := s.keys ++ [{ k with shape }] }

def insert (k : Key) : Writing Unit := do
  let s ← get
  if s.contains k.uniqueName then throw (.notUnique k.uniqueName)
  else
    match k.shape.resolve s.types with
    | .error e => throw e
    | .ok shape => enter k shape

def Call.write : Call → Writing Unit
  | .add k => insert k
  | .extend keys => keys.forM insert

def store (d : Dictionary) : Store :=
  ⟨d.keys, fun n => d.keys.findIdx? (·.registeredName == n), d.types⟩

def outcome : Dictionary × Option DictionaryError → Except DictionaryError Unit × Store
  | (d, none) => (.ok (), d.store)
  | (d, some e) => (.error e, d.store)

theorem contains_store (d : Dictionary) (name : String) : d.store.contains name = d.contains name := by
  show (d.keys.findIdx? _).isSome = (d.keys.find? _).isSome
  rw [List.findIdx?_isSome, List.isSome_find?]

theorem bind_findIdx? {α : Type} (p : α → Bool) (as : List α) :
    ((as.findIdx? p).bind fun i => as[i]?) = as.find? p := by
  induction as with
  | nil => rfl
  | cons a as ih =>
    rw [List.findIdx?_cons, List.find?_cons, ← ih]
    cases p a with
    | true => rfl
    | false => cases as.findIdx? p <;> rfl

theorem get?_store (d : Dictionary) (name : String) : d.store.get? name = d.get? name :=
  bind_findIdx? _ d.keys

theorem findIdx?_concat {keys : List Key} {k r : Key}
    (hnew : ∀ b ∈ keys, b.registeredName ≠ k.registeredName)
    (hr : r.registeredName = k.registeredName) (n : String) :
    (keys ++ [r]).findIdx? (fun b => b.registeredName == n) =
      if n = k.registeredName then some keys.length
      else keys.findIdx? fun b => b.registeredName == n := by
  rw [List.findIdx?_append, List.findIdx?_singleton, hr]
  by_cases hn : n = k.registeredName
  · have hnone : (keys.findIdx? fun b => b.registeredName == n) = none := by
      rw [List.findIdx?_eq_none_iff]
      intro b hb
      rw [hn]
      exact beq_eq_false_iff_ne.mpr (hnew b hb)
    rw [if_pos hn, hnone, if_pos (beq_iff_eq.mpr hn.symm)]
    simp
  · rw [if_neg hn, if_neg (mt beq_iff_eq.mp (Ne.symm hn)), Option.map_none, Option.or_none]

theorem enter_eq {d : Dictionary} {k : Key} {shape : ValueShape} (h : ¬d.contains k.uniqueName = true) :
    enter k shape d.store = (.ok (), store
      { d with keys := d.keys ++ [{ k with shape }], types := k.shape.declared ++ d.types }) := by
  have hnew : ∀ b ∈ d.keys, b.registeredName ≠ k.registeredName := by
    intro b hb hname
    exact h (contains_iff.mpr ⟨b, hb, hname⟩)
  show (Except.ok (), Store.mk (d.keys ++ [{ k with shape }])
    (fun n => if n = k.registeredName then some d.keys.length
      else d.keys.findIdx? fun b => b.registeredName == n) (k.shape.declared ++ d.types)) = _
  simp only [store, findIdx?_concat hnew (r := { k with shape }) rfl]

theorem insert_eq (d : Dictionary) (k : Key) : insert k d.store =
    match d.add k with
    | .ok d' => (.ok (), d'.store)
    | .error e => (.error e, d.store) := by
  have hget : insert k d.store =
      (if d.store.contains k.uniqueName then throw (.notUnique k.uniqueName)
        else
          match k.shape.resolve d.types with
          | .error e => throw e
          | .ok shape => enter k shape : Writing Unit) d.store := rfl
  rw [hget, add, contains_store]
  by_cases hnew : d.contains k.uniqueName = true
  · rw [if_pos hnew, if_pos hnew]
    rfl
  · rw [if_neg hnew, if_neg hnew]
    cases k.shape.resolve d.types with
    | error e => rfl
    | ok shape => exact enter_eq hnew

theorem forM_insert_eq (d : Dictionary) (ks : List Key) :
    ks.forM insert d.store = outcome (d.extend ks) := by
  induction ks generalizing d with
  | nil => rfl
  | cons k ks ih =>
    have hbind : (k :: ks).forM insert d.store =
        match insert k d.store with
        | (.ok (), s) => ks.forM insert s
        | (.error e, s) => (.error e, s) := by
      show StateT.bind (insert k) (ExceptT.bindCont fun _ => ks.forM insert) d.store = _
      unfold StateT.bind
      cases insert k d.store with
      | mk r s => cases r <;> rfl
    rw [hbind, insert_eq, extend]
    cases d.add k with
    | ok d' => exact ih d'
    | error e => rfl

theorem write_eq (d : Dictionary) (call : Call) : call.write d.store = outcome (call.run d) := by
  cases call with
  | add k =>
    rw [Call.write, Call.run, insert_eq]
    cases d.add k <;> rfl
  | extend keys => exact forM_insert_eq d keys

/-! ## Dictionaries -/

theorem loaded_make {name : String} {version : Version} {d : Dictionary}
    (h : make name version = .ok d) : Loaded [] d := by
  unfold make at h
  split at h
  · cases h
    exact ⟨.nil, rfl⟩
  · cases h

theorem lookup_eq_ok_iff {d : Dictionary} {k : Key} {name : String} :
    d.lookup name = .ok k ↔ d.get? name = some k := by
  unfold lookup
  cases d.get? name with
  | none => exact ⟨nofun, nofun⟩
  | some k' => rw [Except.ok.injEq, Option.some.injEq]

/-- Whatever calls succeed or fail, a dictionary holds the keys that fit, in the order in which they were
added, and finds each by its name. What it holds refers to nothing, has the counts of its entries as they
are now, and only its last entry varies; the counts are sums of words, and tell how many values the
entries take just if the sums fit. A key that does not fit changes nothing; among several it stops the
call, which adds those before it. -/
theorem holds_added_keys {name : String} {version : Version} {start : Dictionary}
    (h : make name version = .ok start) (calls : List Call) :
    let d := start.after calls
    let keys := added calls
    Stored keys d.keys ∧
    (d.keys.map Key.registeredName).Nodup ∧
    (∀ n k, d.get? n = some k ↔ k ∈ d.keys ∧ k.registeredName = Text.lowercase n) ∧
    (∀ n k, d.lookup n = .ok k ↔ k ∈ d.keys ∧ k.registeredName = Text.lowercase n) ∧
    (∀ n, d.contains n = true ↔ ∃ k ∈ d.keys, k.registeredName = Text.lowercase n) ∧
    (∀ n, d.store.get? n = d.get? n ∧ d.store.contains n = d.contains n) ∧
    (∀ k ∈ d.keys, (∀ s ∈ k.shape.specs, s.isReference = false) ∧
      ValueShape.ofSpecs k.shape.specs = .ok k.shape ∧
      k.shape.counts = ⟨.ofNat (leastTotal k.shape.specs), (mostTotal k.shape.specs).map .ofNat⟩ ∧
      ((∀ n, Total k.shape.specs n ↔ k.shape.counts.Allow n) ↔
        leastTotal k.shape.specs < UInt64.size ∧ ∀ m ∈ mostTotal k.shape.specs, m < UInt64.size) ∧
      ∀ s ∈ k.shape.specs.dropLast, ∀ i j, s.Takes i → s.Takes j → i = j) ∧
    (∀ call : Call, call.write d.store = outcome (call.run d) ∧
      ((call.run d).2 = none ↔ gather keys call.keys = keys ++ call.keys)) ∧
    (∀ k e d', (Call.add k).run d = (d', some e) → d' = d ∧
      ((∃ b ∈ keys, b.registeredName = k.registeredName) ∧ e = .notUnique k.uniqueName ∨
        ∃ n ∈ k.shape.specs.filterMap ValueSpec.reference?,
          lastNamed keys n = none ∧ e = .unresolved n)) ∧
    ∀ ks e d', (Call.extend ks).run d = (d', some e) → ∃ before k after, ks = before ++ k :: after ∧
      (Call.extend before).run d = (d', none) ∧ (Call.add k).run d' = (d', some e) := by
  intro d keys
  have hd : Loaded keys d := (loaded_make h).after calls
  have hnodup := hd.stored.nodup
  refine ⟨hd.stored, hnodup, fun n k => get?_eq_some_iff hnodup, fun n k => ?_,
    fun n => contains_iff, fun n => ⟨get?_store d n, contains_store d n⟩, fun k hk => ?_,
    fun call => ⟨write_eq d call, ?_⟩, ?_, ?_⟩
  · rw [lookup_eq_ok_iff, get?_eq_some_iff hnodup]
  · have hspecs := hd.stored.no_reference hk
    obtain ⟨_, _, hstored⟩ := hd.stored.exists_storedAs hk
    have hcounts := hstored.counts
    refine ⟨hspecs, ValueShape.ofSpecs_eq_ok_iff.mpr ⟨rfl, hcounts⟩, ?_, ?_, ?_⟩
    · rw [hcounts, Counts.ofSpecs_eq]
    · rw [hcounts]
      exact Counts.totals_iff_allow_iff hspecs
    intro s hs i j
    have hfixed := k.shape.only_last_varies
    rw [onlyLastVaries, List.all_eq_true] at hfixed
    exact ValueSpec.takes_unique (hfixed s hs)
  · rw [run_eq_extend]
    exact hd.extend_eq_none_iff
  · intro k e d' hrun
    by_cases hk : k.Fits keys
    · obtain ⟨d₁, hadd, -⟩ := hd.add hk
      simp only [Call.run, hadd] at hrun
      cases hrun
    · obtain ⟨htaken, hadd⟩ | ⟨n, hn, hnone, hadd⟩ := hd.refuse hk
      · simp only [Call.run, hadd] at hrun
        cases hrun
        exact ⟨rfl, .inl ⟨htaken, rfl⟩⟩
      · simp only [Call.run, hadd] at hrun
        cases hrun
        exact ⟨rfl, .inr ⟨n, hn, hnone, rfl⟩⟩
  · intro ks e d' hrun
    obtain ⟨before, k, after, hks, hbefore, hadd⟩ := extend_fails hrun
    exact ⟨before, k, after, hks, hbefore, by simp only [Call.run, hadd]⟩

/-- A name that is taken whatever its case, a type that no key declares, and a call that stops at it. -/
theorem holds_fitting_keys :
    let angle : Key := ⟨"Angle", .counted [.single { ValueType.ofKind .float with name := some "deg" }] rfl,
      none, none, none, none⟩
    let taken : Key := ⟨"ANGLE", .counted [] rfl, none, none, none, none⟩
    let again : Key := ⟨"Angle", .counted [.byName "deg", .repeated ⟨.ofKind .int, 1, none, nofun⟩] rfl,
      none, none, none, some "Angle2"⟩
    let lost : Key := ⟨"Pos", .counted [.byName "rad"] rfl, none, none, none, none⟩
    let late : Key := ⟨"Late", .counted [] rfl, none, none, none, none⟩
    let calls : List Call := [.add angle, .add taken, .extend [again, lost, late]]
    let start : Dictionary := ⟨"tcc", ⟨1, 2⟩, [], [], none⟩
    make "tcc" ⟨1, 2⟩ = .ok start ∧
    (start.after calls).keys.map Key.registeredName = ["angle", "angle2"] ∧
    (start.after calls).contains "pos" = false ∧
    again.shape.counts = ⟨1, none⟩ ∧
    (∃ k, (start.after calls).get? "ANGLE2" = some k ∧ k.name = "Angle" ∧ k.shape.counts = ⟨2, none⟩ ∧
      ∀ n, Total k.shape.specs n ↔ 2 ≤ n) ∧
    (Call.run (start.after calls) (.add lost)).2 = some (.unresolved "rad") := by
  intro angle taken again lost late calls start
  have hmake : make "tcc" ⟨1, 2⟩ = .ok start := by rfl
  obtain ⟨-, -, hget, -, -, -, hshape, -⟩ := holds_added_keys hmake calls
  refine ⟨hmake, by decide, by decide, rfl, ?_, by decide⟩
  have hfound : ((start.after calls).get? "ANGLE2").map
      (fun k => (k.name, k.shape.counts, leastTotal k.shape.specs, mostTotal k.shape.specs)) =
        some ("Angle", ⟨2, none⟩, 2, none) := by decide
  obtain ⟨k, hk, hfound⟩ := Option.map_eq_some_iff.mp hfound
  simp only [Prod.mk.injEq] at hfound
  obtain ⟨hname, hcounts, hleast, hmost⟩ := hfound
  obtain ⟨-, -, -, htotals, -⟩ := hshape k ((hget _ k).mp hk).1
  have hfit : leastTotal k.shape.specs < UInt64.size ∧ ∀ m ∈ mostTotal k.shape.specs, m < UInt64.size := by
    rw [hleast, hmost]
    exact ⟨by decide, nofun⟩
  refine ⟨k, hk, hname, hcounts, fun n => ?_⟩
  rw [htotals.mpr hfit n, hcounts]
  exact ⟨fun h => h.1, fun h => ⟨h, nofun⟩⟩

end Dictionary

end ActorHub
