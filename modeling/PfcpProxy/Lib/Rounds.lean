import Mathlib.Data.Finset.Card
import Mathlib.Data.List.Induction
import Mathlib.Data.Nat.ModEq

/-!
# Visiting places in rounds

A word lists visits to the places of a finite set. It is cut into rounds of as many visits
as there are places. Throughout the word the places are visited equally often, up to one
visit, exactly if no round visits a place twice (`alwaysEven_iff`).
-/

namespace Rounds

variable {A : Type} [DecidableEq A]

/-- Any two places are visited equally often, up to one visit. -/
def Even (S : Finset A) (w : List A) : Prop := ∀ a ∈ S, ∀ b ∈ S, w.count a ≤ w.count b + 1

def AlwaysEven (S : Finset A) (w : List A) : Prop := ∀ x, x <+: w → Even S x

/-- No round of `n` visits visits a place twice. -/
def DistinctInRounds {A : Type} (n : ℕ) (w : List A) : Prop :=
  ∀ i j a, i < j → i / n = j / n → w[i]? = some a → w[j]? ≠ some a

/-- The visits of the round that has not been completed. -/
def currentRound {A : Type} (n : ℕ) (w : List A) : List A := w.drop (w.length / n * n)

section Words

variable {A : Type} {n : ℕ} {w : List A} {a : A}

lemma length_currentRound (n : ℕ) (w : List A) : (currentRound n w).length = w.length % n := by
  have hdiv := Nat.div_add_mod' w.length n
  rw [currentRound, List.length_drop]
  omega

lemma currentRound_snoc (w : List A) (a : A) :
    currentRound n (w ++ [a]) = if n ∣ w.length + 1 then [] else currentRound n w ++ [a] := by
  have hle : w.length / n * n ≤ w.length := Nat.div_mul_le_self _ _
  unfold currentRound
  rw [List.length_append, List.length_singleton, Nat.succ_div]
  split
  · rename_i hdvd
    rw [List.drop_eq_nil_iff, List.length_append, List.length_singleton]
    have hmul := Nat.div_mul_cancel hdvd
    rw [Nat.succ_div, if_pos hdvd] at hmul
    omega
  · rw [Nat.add_zero, List.drop_append_of_le_length hle]

lemma mem_currentRound_iff :
    a ∈ currentRound n w ↔ ∃ i, w.length / n * n ≤ i ∧ w[i]? = some a := by
  rw [currentRound, List.mem_iff_getElem?]
  constructor
  · rintro ⟨i, hi⟩
    rw [List.getElem?_drop] at hi
    exact ⟨_, Nat.le_add_right _ i, hi⟩
  · rintro ⟨i, hle, hi⟩
    refine ⟨i - w.length / n * n, ?_⟩
    rw [List.getElem?_drop, Nat.add_sub_cancel' hle, hi]

lemma distinctInRounds_snoc_iff (hn : 0 < n) :
    DistinctInRounds n (w ++ [a]) ↔ DistinctInRounds n w ∧ a ∉ currentRound n w := by
  have hlast : (w ++ [a])[w.length]? = some a := by simp
  constructor
  · intro h
    refine ⟨fun i j b hij hdiv hi hj => ?_, fun hmem => ?_⟩
    · exact h i j b hij hdiv (List.getElem?_append_left (List.getElem?_eq_some_iff.mp hi).1 ▸ hi)
        (List.getElem?_append_left (List.getElem?_eq_some_iff.mp hj).1 ▸ hj)
    · obtain ⟨i, hle, hi⟩ := mem_currentRound_iff.mp hmem
      have hlt := (List.getElem?_eq_some_iff.mp hi).1
      have hdiv : i / n = w.length / n := by
        apply Nat.le_antisymm (Nat.div_le_div_right hlt.le)
        exact (Nat.le_div_iff_mul_le hn).mpr hle
      exact h i w.length a hlt hdiv (List.getElem?_append_left hlt ▸ hi) hlast
  · rintro ⟨h, hnot⟩ i j b hij hdiv hi hj
    rcases Nat.lt_trichotomy j w.length with hlt | rfl | hgt
    · rw [List.getElem?_append_left hlt] at hj
      rw [List.getElem?_append_left (hij.trans hlt)] at hi
      exact h i j b hij hdiv hi hj
    · obtain rfl : a = b := by simpa using hj
      rw [List.getElem?_append_left hij] at hi
      refine hnot (mem_currentRound_iff.mpr ⟨i, ?_, hi⟩)
      rw [← hdiv]
      exact Nat.div_mul_le_self _ _
    · have hlen : (w ++ [a]).length ≤ j := by
        rw [List.length_append, List.length_singleton]
        exact hgt
      rw [List.getElem?_eq_none hlen] at hj
      cases hj

end Words

variable {S : Finset A} {w : List A} {a : A}

lemma mod_add_one_of_dvd {m n : ℕ} (hn : 0 < n) (h : n ∣ m + 1) : m % n + 1 = n := by
  obtain ⟨k, rfl⟩ := Nat.exists_eq_succ_of_ne_zero hn.ne'
  rw [Nat.succ_mod_succ_eq_zero_iff.mp (Nat.mod_eq_zero_of_dvd h)]

lemma count_eq_one_of_full {r : List A} (hr : r.Nodup) (hS : ∀ b ∈ r, b ∈ S)
    (hlen : r.length = S.card) (ha : a ∈ S) : r.count a = 1 := by
  apply List.count_eq_one_of_mem hr
  have hsub : r.toFinset ⊆ S := fun b hb => hS b (List.mem_toFinset.mp hb)
  have hcard : S.card ≤ r.toFinset.card := by rw [List.toFinset_card_of_nodup hr, hlen]
  rw [← List.mem_toFinset, Finset.eq_of_subset_of_card_le hsub hcard]
  exact ha

/-- Where no round visits a place twice, every completed round has visited every place, and
the current one some of them once. -/
lemma DistinctInRounds.count_eq (h : DistinctInRounds S.card w) (hw : ∀ b ∈ w, b ∈ S) :
    (currentRound S.card w).Nodup ∧
    ∀ b ∈ S, w.count b = w.length / S.card + (currentRound S.card w).count b := by
  induction w using List.reverseRecOn with
  | nil => simp [currentRound]
  | append_singleton w a ih =>
    have hn : 0 < S.card := Finset.card_pos.mpr ⟨a, hw a (by simp)⟩
    rw [distinctInRounds_snoc_iff hn] at h
    obtain ⟨hnodup, hcount⟩ := ih h.1 fun b hb => hw b (List.mem_append_left _ hb)
    have hnodup' : (currentRound S.card w ++ [a]).Nodup := by
      rw [List.nodup_append_comm]
      simpa [hnodup] using h.2
    rw [currentRound_snoc, List.length_append, List.length_singleton, Nat.succ_div]
    split
    · rename_i hdvd
      refine ⟨List.nodup_nil, fun b hb => ?_⟩
      -- the round is complete
      have hlen : (currentRound S.card w ++ [a]).length = S.card := by
        rw [List.length_append, length_currentRound, List.length_singleton,
          mod_add_one_of_dvd hn hdvd]
      have hround : ∀ b ∈ currentRound S.card w ++ [a], b ∈ S := by
        intro b hb
        rw [List.mem_append] at hb
        exact hw b (List.mem_append.mpr (hb.imp_left List.mem_of_mem_drop))
      have hone := count_eq_one_of_full hnodup' hround hlen hb
      rw [List.count_append] at hone ⊢
      rw [hcount b hb]
      simp only [List.count_nil]
      omega
    · refine ⟨hnodup', fun b hb => ?_⟩
      rw [List.count_append, List.count_append, hcount b hb]
      omega

/-- One more visit keeps the word even exactly if it is new in its round. -/
lemma even_snoc_iff (h : DistinctInRounds S.card w) (hw : ∀ b ∈ w ++ [a], b ∈ S) :
    Even S (w ++ [a]) ↔ a ∉ currentRound S.card w := by
  have ha : a ∈ S := hw a (by simp)
  have hn : 0 < S.card := Finset.card_pos.mpr ⟨a, ha⟩
  obtain ⟨hnodup, hcount⟩ := h.count_eq fun b hb => hw b (List.mem_append_left _ hb)
  constructor
  · intro heven hmem
    -- the round is not complete, so it has left out some place
    obtain ⟨b, hb, hnot⟩ : ∃ b ∈ S, b ∉ currentRound S.card w := by
      by_contra hall
      simp only [not_exists, not_and, not_not] at hall
      have hsub : S ⊆ (currentRound S.card w).toFinset :=
        fun b hb => List.mem_toFinset.mpr (hall b hb)
      have hle := Finset.card_le_card hsub
      rw [List.toFinset_card_of_nodup hnodup, length_currentRound] at hle
      exact absurd (Nat.mod_lt w.length hn) (Nat.not_lt.mpr hle)
    have hab : a ≠ b := fun hab => hnot (hab ▸ hmem)
    have heq := heven a ha b hb
    rw [List.count_append, List.count_append, hcount a ha, hcount b hb,
      List.count_eq_one_of_mem hnodup hmem, List.count_eq_zero_of_not_mem hnot] at heq
    simp only [List.count_singleton_self, List.count_singleton, beq_iff_eq, hab, if_false] at heq
    omega
  · intro hnot b hb c hc
    obtain ⟨hnodup', hcount'⟩ :=
      ((distinctInRounds_snoc_iff hn).mpr ⟨h, hnot⟩).count_eq hw
    have hle := List.nodup_iff_count_le_one.mp hnodup' b
    rw [hcount' b hb, hcount' c hc]
    omega

/-- A word is even throughout exactly if no round visits a place twice. -/
theorem alwaysEven_iff (hw : ∀ b ∈ w, b ∈ S) : AlwaysEven S w ↔ DistinctInRounds S.card w := by
  induction w using List.reverseRecOn with
  | nil =>
    refine ⟨fun _ i j a _ _ hi => by simp at hi, fun _ x hx a _ b _ => ?_⟩
    rw [List.prefix_nil.mp hx]
    simp
  | append_singleton w a ih =>
    have hn : 0 < S.card := Finset.card_pos.mpr ⟨a, hw a (by simp)⟩
    have hsnoc : AlwaysEven S (w ++ [a]) ↔ AlwaysEven S w ∧ Even S (w ++ [a]) := by
      constructor
      · exact fun h => ⟨fun x hx => h x (hx.trans (List.prefix_append _ _)), h _ (List.prefix_refl _)⟩
      · rintro ⟨h, heven⟩ x hx
        rcases List.prefix_concat_iff.mp (by simpa using hx) with rfl | hx
        · exact heven
        · exact h x hx
    rw [hsnoc, distinctInRounds_snoc_iff hn, ih fun b hb => hw b (List.mem_append_left _ hb)]
    exact and_congr_right fun h => even_snoc_iff h hw

end Rounds
