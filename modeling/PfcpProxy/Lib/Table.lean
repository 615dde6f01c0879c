import Mathlib.Data.Finmap
import Mathlib.Data.Finset.Card
import Mathlib.Algebra.BigOperators.Group.Finset.Piecewise
import Mathlib.Algebra.Order.BigOperators.Group.Finset
import Mathlib.Algebra.Ring.Nat

/-!
# Finite tables

`Table K V` is Mathlib's `Finmap` under the operations of a concurrent hash map: reading,
overwriting insertion, removal, update in place, retention and counting. A table is
determined by what `get` returns (`Table.ext`), and every operation is described by `get`.
-/

/-- A finite partial map from `K` to `V`. -/
structure Table (K V : Type) where
  toFinmap : Finmap (fun _ : K => V)

namespace Table

variable {K V : Type}

def empty : Table K V := ⟨∅⟩

variable [DecidableEq K]

instance [DecidableEq V] : DecidableEq (Table K V) := fun t t' =>
  decidable_of_iff (t.toFinmap = t'.toFinmap) (by
    cases t
    cases t'
    simp)

def get (t : Table K V) (k : K) : Option V := t.toFinmap.lookup k

def insert (t : Table K V) (k : K) (v : V) : Table K V := ⟨t.toFinmap.insert k v⟩

def remove (t : Table K V) (k : K) : Table K V := ⟨t.toFinmap.erase k⟩

/-- Update the value under `k`, if there is one. -/
def modify (t : Table K V) (k : K) (f : V → V) : Table K V :=
  match t.get k with
  | some v => t.insert k (f v)
  | none => t

/-- Keep the entries that satisfy `p`. -/
def retain (t : Table K V) (p : K → V → Bool) : Table K V :=
  ⟨⟨t.toFinmap.entries.filter (fun e => p e.1 e.2), by
    rw [← Multiset.nodup_keys]
    exact Multiset.nodup_of_le (Multiset.map_le_map (Multiset.filter_le _ _))
      (Multiset.nodup_keys.mpr t.toFinmap.nodupKeys)⟩⟩

def len (t : Table K V) : ℕ := t.toFinmap.keys.card

/-- The number of entries whose value satisfies `p`. -/
def countIf (t : Table K V) (p : V → Bool) : ℕ :=
  (t.toFinmap.keys.filter (fun k => (t.get k).any p)).card

/-- The sum of `f` over the values of the table. -/
def total (t : Table K V) (f : V → ℕ) : ℕ := ∑ k ∈ t.toFinmap.keys, ((t.get k).map f).getD 0

/-- The sum of `f` over the values under keys that are not in the list. -/
def totalOutside (t : Table K V) (f : V → ℕ) (ks : List K) : ℕ :=
  ∑ k ∈ t.toFinmap.keys.filter (fun k => k ∉ ks), ((t.get k).map f).getD 0

lemma ext {t t' : Table K V} (h : ∀ k, t.get k = t'.get k) : t = t' :=
  congrArg Table.mk (Finmap.ext_lookup h)

@[simp] lemma get_empty (k : K) : (empty : Table K V).get k = none :=
  Finmap.lookup_empty k

@[simp] lemma get_insert_self (t : Table K V) (k : K) (v : V) : (t.insert k v).get k = some v :=
  Finmap.lookup_insert _

@[simp] lemma get_insert_of_ne (t : Table K V) {k k' : K} (v : V) (h : k' ≠ k) :
    (t.insert k v).get k' = t.get k' :=
  Finmap.lookup_insert_of_ne _ h

lemma get_insert (t : Table K V) (k k' : K) (v : V) :
    (t.insert k v).get k' = if k' = k then some v else t.get k' := by
  by_cases h : k' = k
  · subst h
    simp
  · simp [h]

@[simp] lemma get_remove_self (t : Table K V) (k : K) : (t.remove k).get k = none :=
  Finmap.lookup_erase _ _

@[simp] lemma get_remove_of_ne (t : Table K V) {k k' : K} (h : k' ≠ k) :
    (t.remove k).get k' = t.get k' :=
  Finmap.lookup_erase_ne h

lemma get_remove (t : Table K V) (k k' : K) :
    (t.remove k).get k' = if k' = k then none else t.get k' := by
  by_cases h : k' = k
  · subst h
    simp
  · simp [h]

lemma get_modify (t : Table K V) (k k' : K) (f : V → V) :
    (t.modify k f).get k' = if k' = k then (t.get k).map f else t.get k' := by
  unfold modify
  cases hk : t.get k with
  | none =>
    by_cases h : k' = k
    · subst h
      simpa using hk
    · simp [h]
  | some v => simp [get_insert]

@[simp] lemma get_modify_self (t : Table K V) (k : K) (f : V → V) :
    (t.modify k f).get k = (t.get k).map f := by
  simp [get_modify]

@[simp] lemma get_modify_of_ne (t : Table K V) {k k' : K} (f : V → V) (h : k' ≠ k) :
    (t.modify k f).get k' = t.get k' := by
  simp [get_modify, h]

lemma get_retain (t : Table K V) (p : K → V → Bool) (k : K) :
    (t.retain p).get k = (t.get k).filter (p k) := by
  apply Option.ext
  intro v
  have hmem : v ∈ (t.retain p).get k ↔
      ⟨k, v⟩ ∈ t.toFinmap.entries.filter (fun e => p e.1 e.2) := Finmap.mem_lookup_iff
  have hmem' : v ∈ t.get k ↔ ⟨k, v⟩ ∈ t.toFinmap.entries := Finmap.mem_lookup_iff
  rw [← Option.mem_def, hmem, Multiset.mem_filter, ← hmem', Option.filter_eq_some_iff,
    Option.mem_def]

lemma remove_of_get_none (t : Table K V) {k : K} (h : t.get k = none) : t.remove k = t := by
  apply ext
  intro k'
  by_cases hk : k' = k
  · subst hk
    simp [h]
  · simp [hk]

lemma remove_insert (t : Table K V) (k : K) (v : V) : (t.insert k v).remove k = t.remove k := by
  apply ext
  intro k'
  by_cases hk : k' = k
  · subst hk
    simp
  · simp [hk]

/-! ### Size -/

lemma mem_keys {t : Table K V} {k : K} : k ∈ t.toFinmap.keys ↔ (t.get k).isSome := by
  rw [Finmap.mem_keys]
  exact Finmap.lookup_isSome.symm

lemma keys_insert (t : Table K V) (k : K) (v : V) :
    (t.insert k v).toFinmap.keys = Insert.insert k t.toFinmap.keys := by
  ext k'
  rw [Finset.mem_insert, mem_keys, mem_keys, get_insert]
  by_cases hkk : k' = k
  · simp [hkk]
  · simp [hkk]

lemma len_insert_of_get_none (t : Table K V) {k : K} (v : V) (h : t.get k = none) :
    (t.insert k v).len = t.len + 1 := by
  have hk : k ∉ t.toFinmap.keys := by simp [mem_keys, h]
  rw [len, keys_insert, Finset.card_insert_of_notMem hk, len]

lemma len_remove_of_get_some (t : Table K V) {k : K} {v : V} (h : t.get k = some v) :
    (t.remove k).len + 1 = t.len := by
  have hk : k ∈ t.toFinmap.keys := by simp [mem_keys, h]
  rw [len, remove, Finmap.keys_erase, Finset.card_erase_add_one hk, len]

/-! ### Sums over the values -/

lemma total_erase (t : Table K V) (f : V → ℕ) (k : K) (v : V) :
    ∑ k' ∈ t.toFinmap.keys.erase k, (((t.insert k v).get k').map f).getD 0 =
      ∑ k' ∈ t.toFinmap.keys.erase k, ((t.get k').map f).getD 0 := by
  apply Finset.sum_congr rfl
  intro k' hk'
  rw [get_insert_of_ne t v (Finset.ne_of_mem_erase hk')]

lemma total_insert_of_get_none (t : Table K V) (f : V → ℕ) {k : K} (v : V) (h : t.get k = none) :
    (t.insert k v).total f = t.total f + f v := by
  have hk : k ∉ t.toFinmap.keys := by simp [mem_keys, h]
  have hrest := total_erase t f k v
  rw [Finset.erase_eq_of_notMem hk] at hrest
  rw [total, keys_insert, Finset.sum_insert hk, hrest, total, get_insert_self]
  exact Nat.add_comm _ _

lemma total_insert_of_get_some (t : Table K V) (f : V → ℕ) {k : K} {v₀ : V} (v : V)
    (h : t.get k = some v₀) : (t.insert k v).total f + f v₀ = t.total f + f v := by
  have hk : k ∈ t.toFinmap.keys := by simp [mem_keys, h]
  have hrest := total_erase t f k v
  have hnew := Finset.add_sum_erase t.toFinmap.keys
    (fun k' => (((t.insert k v).get k').map f).getD 0) hk
  have hold := Finset.add_sum_erase t.toFinmap.keys (fun k' => ((t.get k').map f).getD 0) hk
  simp only [get_insert_self, h, Option.map_some, Option.getD_some] at hnew hold
  rw [total, keys_insert, Finset.insert_eq_self.mpr hk, total]
  omega

/-- The values under distinct keys and the values under the others add up to the total. -/
lemma total_eq_sum_add (t : Table K V) (f : V → ℕ) {ks : List K} (hnodup : ks.Nodup) :
    t.total f = (ks.map (fun k => ((t.get k).map f).getD 0)).sum + t.totalOutside f ks := by
  have hinside : ∑ k ∈ t.toFinmap.keys.filter (fun k => k ∈ ks), ((t.get k).map f).getD 0 =
      ∑ k ∈ ks.toFinset, ((t.get k).map f).getD 0 := by
    apply Finset.sum_subset
    · intro k hk
      simpa using (Finset.mem_filter.mp hk).2
    · intro k hk hnot
      have hkeys : k ∉ t.toFinmap.keys := fun hmem =>
        hnot (Finset.mem_filter.mpr ⟨hmem, by simpa using hk⟩)
      rw [mem_keys, Option.not_isSome_iff_eq_none] at hkeys
      simp [hkeys]
  rw [total, totalOutside, ← List.sum_toFinset _ hnodup, ← hinside,
    Finset.sum_filter_add_sum_filter_not]

lemma totalOutside_eq_zero (t : Table K V) (f : V → ℕ) {ks : List K}
    (hks : ∀ k, t.get k ≠ none → k ∈ ks) : t.totalOutside f ks = 0 := by
  apply Finset.sum_eq_zero
  intro k hk
  obtain ⟨hmem, hnot⟩ := Finset.mem_filter.mp hk
  rw [mem_keys, Option.isSome_iff_ne_none] at hmem
  exact absurd (hks k hmem) hnot

/-! ### Counting values -/

/-- Entries are counted with and without a further condition. -/
lemma countIf_split (t : Table K V) (p q : V → Bool) :
    t.countIf p = t.countIf (fun v => p v && q v) + t.countIf (fun v => p v && !q v) := by
  unfold countIf
  rw [← Finset.card_filter_add_card_filter_not (s := t.toFinmap.keys.filter _)
    (fun k => (t.get k).any q), Finset.filter_filter, Finset.filter_filter]
  congr 2
  · apply Finset.filter_congr
    intro k _
    cases t.get k <;> simp
  · apply Finset.filter_congr
    intro k _
    cases t.get k <;> simp

/-- Every entry belongs to one of some distinct values of `g`, or to another value. -/
lemma sum_countIf_add {A : Type} [DecidableEq A] (t : Table K V) (g : V → A) {as : List A}
    (hnodup : as.Nodup) :
    (as.map (fun a => t.countIf (fun v => g v = a))).sum + t.countIf (fun v => g v ∉ as) =
      t.len := by
  induction as with
  | nil =>
    have hall : t.toFinmap.keys.filter (fun k => (t.get k).isSome) = t.toFinmap.keys :=
      Finset.filter_true_of_mem fun k hk => mem_keys.mp hk
    simp [countIf, hall, len]
  | cons a as ih =>
    rw [List.nodup_cons] at hnodup
    have hsplit := countIf_split t (fun v => g v ∉ as) (fun v => g v = a)
    have hself : (fun v => decide (g v ∉ as) && decide (g v = a)) = fun v => decide (g v = a) := by
      funext v
      by_cases hv : g v = a
      · simp [hv, hnodup.1]
      · simp [hv]
    have hrest : (fun v => decide (g v ∉ as) && !decide (g v = a)) =
        fun v => decide (g v ∉ a :: as) := by
      funext v
      by_cases hv : g v = a <;> simp [hv]
    rw [hself, hrest] at hsplit
    have ih' := ih hnodup.2
    simp only [List.map_cons, List.sum_cons]
    omega

lemma countIf_insert_of_get_none (t : Table K V) {k : K} (v : V) (p : V → Bool)
    (h : t.get k = none) : (t.insert k v).countIf p = t.countIf p + if p v then 1 else 0 := by
  have hk : k ∉ t.toFinmap.keys := by simp [mem_keys, h]
  have hrest : t.toFinmap.keys.filter (fun k' => ((t.insert k v).get k').any p) =
      t.toFinmap.keys.filter (fun k' => (t.get k').any p) := by
    apply Finset.filter_congr
    intro k' hk'
    have hne : k' ≠ k := fun he => hk (he ▸ hk')
    simp [hne]
  rw [countIf, keys_insert, Finset.filter_insert, hrest, get_insert_self, Option.any_some]
  split
  · rw [Finset.card_insert_of_notMem (by simp [hk]), countIf]
  · rw [countIf, Nat.add_zero]

lemma countIf_eq_zero (t : Table K V) {p : V → Bool} (hp : ∀ k v, t.get k = some v → p v = false) :
    t.countIf p = 0 := by
  rw [countIf, Finset.card_eq_zero, Finset.filter_eq_empty_iff]
  intro k _
  cases hget : t.get k with
  | none => simp
  | some v => simp [hp k v hget]

end Table
