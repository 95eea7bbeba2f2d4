import ActorHub.ValueShape

/-!
# Counts

How many texts entries take together. Entry by entry the numbers lie between a least and a largest one,
so together they lie between two sums (`total_iff`). A shape keeps these sums as words: the words are the
sums modulo the size of a word (`Counts.ofSpecs_eq`), and bound the numbers just if the largest sum fits
(`Counts.allow_totals_iff`).
-/

namespace ActorHub

/-! ## Numbers of texts -/

inductive ValueSpec.Takes : ValueSpec → Nat → Prop where
  | single {type : ValueType} : Takes (.single type) 1
  | repeated {r : Repeated} {n : Nat} (hleast : r.min ≤ n) (hmost : ∀ m ∈ r.max, n ≤ m) :
      Takes (.repeated r) n
  | compound {c : Compound} : Takes (.compound c) c.types.length

/-- The entries together may take so many values. -/
inductive Total : List ValueSpec → Nat → Prop where
  | nil : Total [] 0
  | cons {s : ValueSpec} {specs : List ValueSpec} {i j : Nat} (hs : s.Takes i) (hspecs : Total specs j) :
      Total (s :: specs) (i + j)

def Between (least : Nat) (most : Option Nat) (n : Nat) : Prop :=
  least ≤ n ∧ ∀ m ∈ most, n ≤ m

/-- A sum, unless one of the numbers has no bound. -/
def addBounds (a b : Option Nat) : Option Nat := do
  return (← a) + (← b)

theorem mem_addBounds {a b : Option Nat} {m : Nat} :
    m ∈ addBounds a b ↔ ∃ i ∈ a, ∃ j ∈ b, m = i + j := by
  cases a <;> cases b <;> simp [addBounds, eq_comm]

section
variable {a b i j n : Nat} {A B : Option Nat}

theorem Between.add (hi : Between a A i) (hj : Between b B j) :
    Between (a + b) (addBounds A B) (i + j) := by
  refine ⟨Nat.add_le_add hi.1 hj.1, fun m hm => ?_⟩
  obtain ⟨p, hp, q, hq, rfl⟩ := mem_addBounds.mp hm
  exact Nat.add_le_add (hi.2 p hp) (hj.2 q hq)

/-- What lies between sums is a sum, where nothing between the bounds of either part is missing. -/
theorem Between.split (ha : Between a A a) (hb : Between b B b) (h : Between (a + b) (addBounds A B) n) :
    ∃ i j, Between a A i ∧ Between b B j ∧ n = i + j := by
  obtain ⟨hleast, hmost⟩ := h
  cases A with
  | none =>
    -- the first takes all that the second can do without
    exact ⟨n - b, b, ⟨by omega, nofun⟩, hb, by omega⟩
  | some p =>
    have hap : a ≤ p := ha.2 p rfl
    cases B with
    | none => exact ⟨a, n - a, ha, ⟨by omega, nofun⟩, by omega⟩
    | some q =>
      have hbq : b ≤ q := hb.2 q rfl
      have hn : n ≤ p + q := hmost (p + q) rfl
      refine ⟨min p (n - b), n - min p (n - b), ⟨by omega, ?_⟩, ⟨by omega, ?_⟩, by omega⟩
      · rintro _ ⟨⟩
        omega
      · rintro _ ⟨⟩
        omega

end

namespace ValueSpec

variable {s : ValueSpec}

theorem between_least (s : ValueSpec) : Between s.least s.most s.least := by
  refine ⟨Nat.le_refl _, ?_⟩
  intro m hm
  cases s with
  | repeated r => exact r.min_le_max m hm
  | single _ | compound _ | byName _ =>
    cases hm
    exact Nat.le_refl _

theorem Takes.between {n : Nat} (h : s.Takes n) : Between s.least s.most n := by
  cases h with
  | single => exact between_least _
  | repeated hleast hmost => exact ⟨hleast, hmost⟩
  | compound => exact between_least _

theorem takes_of_between {n : Nat} (hs : s.isReference = false) (h : Between s.least s.most n) :
    s.Takes n := by
  obtain ⟨hleast, hmost⟩ := h
  cases s with
  | single t =>
    obtain rfl : n = 1 := Nat.le_antisymm (hmost 1 rfl) hleast
    exact .single
  | repeated r => exact .repeated hleast hmost
  | compound c =>
    obtain rfl : n = c.types.length := Nat.le_antisymm (hmost c.size rfl) hleast
    exact .compound
  | byName name => cases hs

theorem takes_unique (hs : s.isFixed = true) {i j : Nat} (hi : s.Takes i) (hj : s.Takes j) : i = j := by
  cases hi with
  | single => cases hj; rfl
  | compound => cases hj; rfl
  | @repeated r _ hleast hmost =>
    cases hj with
    | repeated hleast' hmost' =>
      have hmax : r.max = some r.min := beq_iff_eq.mp hs
      have hi := hmost r.min hmax
      have hj := hmost' r.min hmax
      omega

end ValueSpec

/-! ## Sums -/

def leastTotal : List ValueSpec → Nat
  | [] => 0
  | s :: specs => s.least + leastTotal specs

def mostTotal : List ValueSpec → Option Nat
  | [] => some 0
  | s :: specs => addBounds s.most (mostTotal specs)

section
variable {specs : List ValueSpec} {n : Nat}

theorem between_leastTotal (specs : List ValueSpec) :
    Between (leastTotal specs) (mostTotal specs) (leastTotal specs) := by
  induction specs with
  | nil => exact ⟨Nat.le_refl 0, fun m _ => Nat.zero_le m⟩
  | cons s specs ih => exact s.between_least.add ih

theorem Total.between (h : Total specs n) : Between (leastTotal specs) (mostTotal specs) n := by
  induction h with
  | nil => exact between_leastTotal []
  | cons hs _ ih => exact hs.between.add ih

theorem total_of_between (hspecs : ∀ s ∈ specs, s.isReference = false)
    (h : Between (leastTotal specs) (mostTotal specs) n) : Total specs n := by
  induction specs generalizing n with
  | nil =>
    obtain rfl : n = 0 := Nat.le_zero.mp (h.2 0 rfl)
    exact .nil
  | cons s specs ih =>
    obtain ⟨hs, hspecs⟩ := List.forall_mem_cons.mp hspecs
    obtain ⟨i, j, hi, hj, rfl⟩ := Between.split s.between_least (between_leastTotal specs) h
    exact .cons (ValueSpec.takes_of_between hs hi) (ih hspecs hj)

theorem total_iff (hspecs : ∀ s ∈ specs, s.isReference = false) :
    Total specs n ↔ Between (leastTotal specs) (mostTotal specs) n :=
  ⟨Total.between, total_of_between hspecs⟩

end

/-! ## Words -/

namespace Counts

def Allow (c : Counts) (n : Nat) : Prop :=
  Between c.least.toNat (c.most.map UInt64.toNat) n

variable {specs : List ValueSpec} {n : Nat}

theorem Allow.le_most {c : Counts} {m : UInt64} (h : c.Allow n) (hm : m ∈ c.most) : n ≤ m.toNat :=
  h.2 m.toNat (Option.mem_map_of_mem _ hm)

theorem foldl_add (specs : List ValueSpec) (c : Counts) : specs.foldl add c =
    ⟨c.least + .ofNat (leastTotal specs), do return (← c.most) + .ofNat (← mostTotal specs)⟩ := by
  induction specs generalizing c with
  | nil => cases c with | mk least most => cases most <;> simp [leastTotal, mostTotal]
  | cons s specs ih =>
    rw [List.foldl_cons, ih]
    cases hc : c.most <;> cases hs : s.most <;> cases hm : mostTotal specs <;>
      simp [add, leastTotal, mostTotal, addBounds, hc, hs, hm, UInt64.ofNat_add, UInt64.add_assoc]

theorem ofSpecs_eq (specs : List ValueSpec) :
    ofSpecs specs = ⟨.ofNat (leastTotal specs), (mostTotal specs).map .ofNat⟩ := by
  rw [ofSpecs, foldl_add]
  cases mostTotal specs <;> simp

theorem ofNat_mem_most {m : Nat} (hm : m ∈ mostTotal specs) : .ofNat m ∈ (ofSpecs specs).most := by
  rw [ofSpecs_eq]
  exact Option.mem_map_of_mem _ hm

theorem least_le (h : Total specs n) : (ofSpecs specs).least.toNat ≤ n := by
  rw [ofSpecs_eq, UInt64.toNat_ofNat']
  exact Nat.le_trans (Nat.mod_le _ _) h.between.1

theorem allow_of_total (hmost : ∀ m ∈ mostTotal specs, m < UInt64.size) (h : Total specs n) :
    (ofSpecs specs).Allow n := by
  refine ⟨least_le h, fun m hm => ?_⟩
  rw [ofSpecs_eq, Option.map_map] at hm
  obtain ⟨k, hk, rfl⟩ := Option.map_eq_some_iff.mp hm
  rw [Function.comp_apply, UInt64.toNat_ofNat_of_lt' (hmost k hk)]
  exact h.between.2 k hk

/-- The words bound the numbers of texts if and only if the largest of these is a word. -/
theorem allow_totals_iff (hspecs : ∀ s ∈ specs, s.isReference = false) :
    (∀ n, Total specs n → (ofSpecs specs).Allow n) ↔ ∀ m ∈ mostTotal specs, m < UInt64.size := by
  constructor
  · intro h m hm
    have hmax : Between (leastTotal specs) (mostTotal specs) m := by
      refine ⟨(between_leastTotal specs).2 m hm, fun k hk => ?_⟩
      exact Nat.le_of_eq (Option.some.inj (hm.symm.trans hk))
    have hallowed := h m (total_of_between hspecs hmax)
    exact Nat.lt_of_le_of_lt (hallowed.le_most (ofNat_mem_most hm)) (UInt64.toNat_lt _)
  · intro hmost n hn
    exact allow_of_total hmost hn

theorem totals_iff_allow_iff (hspecs : ∀ s ∈ specs, s.isReference = false) :
    (∀ n, Total specs n ↔ (ofSpecs specs).Allow n) ↔
      leastTotal specs < UInt64.size ∧ ∀ m ∈ mostTotal specs, m < UInt64.size := by
  constructor
  · intro h
    have hmost := (allow_totals_iff hspecs).mp fun n hn => (h n).mp hn
    refine ⟨?_, hmost⟩
    -- the least number that the words allow is itself a word
    have hleast : (ofSpecs specs).Allow (leastTotal specs) :=
      allow_of_total hmost (total_of_between hspecs (between_leastTotal specs))
    have hword : (ofSpecs specs).Allow (ofSpecs specs).least.toNat :=
      ⟨Nat.le_refl _, fun m hm => Nat.le_trans hleast.1 (hleast.2 m hm)⟩
    exact Nat.lt_of_le_of_lt ((h _).mpr hword).between.1 (UInt64.toNat_lt _)
  · rintro ⟨hleast, hmost⟩ n
    refine ⟨allow_of_total hmost, fun h => total_of_between hspecs ⟨?_, fun m hm => ?_⟩⟩
    · have hn := h.1
      rwa [ofSpecs_eq, UInt64.toNat_ofNat_of_lt' hleast] at hn
    · have hn := h.le_most (ofNat_mem_most hm)
      rwa [UInt64.toNat_ofNat_of_lt' (hmost m hm)] at hn

end Counts

/-! ## Shapes -/

theorem ValueShape.ofSpecs_eq_ok_iff {specs : List ValueSpec} {s : ValueShape} :
    ofSpecs specs = .ok s ↔ s.specs = specs ∧ s.counts = .ofSpecs specs := by
  unfold ofSpecs
  constructor
  · intro h
    split at h
    · cases h
      exact ⟨rfl, rfl⟩
    · cases h
  · rintro ⟨rfl, hcounts⟩
    rw [dif_pos s.only_last_varies, counted, ← hcounts]

end ActorHub
