import Mathlib.Data.Int.CardIntervalMod
import Mathlib.Data.Nat.Periodic

/-!
# Shares of a counter

Consecutive values of a counter are reduced modulo the number of places, or modulo a total
weight whose residues are divided among the places in blocks. This file counts how often each
place comes up: evenly up to one in the first case (`count_residue_le`), exactly as often as
its weight in the second (`count_blockOf`).
-/

namespace Shares

lemma count_map_range {A : Type} [BEq A] [LawfulBEq A] (f : ℕ → A) (m : ℕ) (a : A)
    [DecidablePred fun k => f k = a] :
    ((List.range m).map f).count a = Nat.count (fun k => f k = a) m := by
  induction m with
  | zero => rfl
  | succ m ih =>
    rw [List.range_succ, List.map_append, List.count_append, ih, Nat.count_succ]
    by_cases h : f m = a <;> simp [h]

lemma count_congr {P Q : ℕ → Prop} [DecidablePred P] [DecidablePred Q] {n : ℕ}
    (h : ∀ k, k < n → (P k ↔ Q k)) : Nat.count P n = Nat.count Q n :=
  Nat.le_antisymm (Nat.count_mono_left fun k hk => (h k hk).mp)
    (Nat.count_mono_left fun k hk => (h k hk).mpr)

/-! ### Equal shares -/

/-- In `m` consecutive values two residues come up equally often, up to one. -/
theorem count_residue_le {n u v : ℕ} (hu : u < n) (hv : v < n) (c m : ℕ) :
    Nat.count (fun k => (c + k) % n = u) m ≤ Nat.count (fun k => (c + k) % n = v) m + 1 := by
  have hn : 0 < n := by omega
  have hwindow : ∀ w, w < n → Nat.count (fun k => (c + k) % n = w) m + c / n +
      (if w < c % n then 1 else 0) = (c + m) / n + if w < (c + m) % n then 1 else 0 := by
    intro w hw
    have hcard : ∀ b, Nat.count (fun k => k % n = w) b = b / n + if w < b % n then 1 else 0 := by
      intro b
      have h := Nat.count_modEq_card b hn w
      simpa only [Nat.ModEq, Nat.mod_eq_of_lt hw] using h
    have hadd := Nat.count_add (fun k => k % n = w) c m
    rw [hcard, hcard] at hadd
    omega
  have hwu := hwindow u hu
  have hwv := hwindow v hv
  -- the residues below `(c + m) % n` and those below `c % n` are both initial segments
  split_ifs at hwu hwv <;> omega

/-- A counter that wraps at `M` takes its values in at most two stretches, so that two residues
come up equally often up to one, or up to two where it wraps. -/
theorem count_wrapped_residue_le {n u v M s m : ℕ} (hu : u < n) (hv : v < n) (hs : s < M)
    (hm : m ≤ M) :
    Nat.count (fun k => (s + k) % M % n = u) m ≤
      Nat.count (fun k => (s + k) % M % n = v) m + if s + m ≤ M then 1 else 2 := by
  have hbefore : ∀ w, ∀ b, s + b ≤ M →
      Nat.count (fun k => (s + k) % M % n = w) b = Nat.count (fun k => (s + k) % n = w) b := by
    intro w b hb
    exact count_congr fun k hk => by rw [Nat.mod_eq_of_lt (show s + k < M by omega)]
  split
  · rename_i hle
    rw [hbefore u m hle, hbefore v m hle]
    exact count_residue_le hu hv s m
  · rename_i hgt
    obtain ⟨b, rfl⟩ : ∃ b, m = (M - s) + b := ⟨m - (M - s), by omega⟩
    have hafter : ∀ w, Nat.count (fun k => (s + (M - s + k)) % M % n = w) b =
        Nat.count (fun k => (0 + k) % n = w) b := by
      intro w
      refine count_congr fun k hk => ?_
      have hsum : s + (M - s + k) = k + M := by omega
      rw [hsum, Nat.add_mod_right, Nat.mod_eq_of_lt (show k < M by omega), Nat.zero_add]
    rw [Nat.count_add, Nat.count_add, hbefore u _ (by omega), hbefore v _ (by omega), hafter u,
      hafter v]
    have hfirst := count_residue_le hu hv s (M - s)
    have hsecond := count_residue_le hu hv 0 b
    omega

/-! ### Weighted shares -/

/-- The place whose block contains `r`, where the blocks have the lengths `ws` and the first
one starts at `s`. -/
def blockOf {A : Type} (r : ℕ) : List (A × ℕ) → ℕ → Option A
  | [], _ => none
  | (a, w) :: rest, s => if r < s + w then some a else blockOf r rest (s + w)

variable {A : Type}

lemma blockOf_ne_of_notMem {a : A} {ps : List (A × ℕ)} (h : a ∉ ps.map Prod.fst) (r s : ℕ) :
    blockOf r ps s ≠ some a := by
  induction ps generalizing s with
  | nil => simp [blockOf]
  | cons p ps ih =>
    obtain ⟨b, w⟩ := p
    simp only [List.map_cons, List.mem_cons, not_or] at h
    unfold blockOf
    split
    · simpa using fun hb => h.1 hb.symm
    · exact ih h.2 _

variable [DecidableEq A]

/-- Over one cycle a place comes up as often as its block is long. -/
lemma count_blockOf_cycle {a : A} {w : ℕ} {ps : List (A × ℕ)} (hps : (ps.map Prod.fst).Nodup)
    (ha : (a, w) ∈ ps) (s : ℕ) :
    Nat.count (fun k => blockOf (s + k) ps s = some a) (ps.map Prod.snd).sum = w := by
  induction ps generalizing s with
  | nil => simp at ha
  | cons p ps ih =>
    obtain ⟨b, v⟩ := p
    simp only [List.map_cons, List.nodup_cons] at hps
    rw [List.map_cons, List.sum_cons, Nat.count_add]
    have hfirst : Nat.count (fun k => blockOf (s + k) ((b, v) :: ps) s = some a) v =
        if b = a then v else 0 := by
      have hin : ∀ k < v, blockOf (s + k) ((b, v) :: ps) s = some b := by
        intro k hk
        simp [blockOf, hk]
      split
      · rename_i hb
        exact Nat.count_of_forall fun k hk => by rw [hin k hk, hb]
      · rename_i hb
        exact Nat.count_of_forall_not fun k hk => by simpa [hin k hk] using hb
    have hrest : (fun k => blockOf (s + (v + k)) ((b, v) :: ps) s = some a) =
        fun k => blockOf (s + v + k) ps (s + v) = some a := by
      funext k
      have hge : ¬s + (v + k) < s + v := by omega
      simp only [blockOf, hge, if_false, Nat.add_assoc]
    simp only [hrest]
    rw [hfirst]
    rcases List.mem_cons.mp ha with heq | hmem
    · cases heq
      have hnone : Nat.count (fun k => blockOf (s + w + k) ps (s + w) = some a)
          (ps.map Prod.snd).sum = 0 :=
        Nat.count_of_forall_not fun k _ => blockOf_ne_of_notMem hps.1 _ _
      rw [hnone, if_pos rfl, Nat.add_zero]
    · have hb : b ≠ a := by
        rintro rfl
        exact hps.1 (List.mem_map_of_mem hmem)
      rw [if_neg hb, ih hps.2 hmem, Nat.zero_add]

/-- A window as long as the period counts what a cycle counts. -/
lemma count_window {P : ℕ → Prop} [DecidablePred P] {n : ℕ} (hP : Function.Periodic P n) (c : ℕ) :
    Nat.count (fun k => P (c + k)) n = Nat.count P n := by
  have hfront := Nat.count_add P c n
  have hback := Nat.count_add P n c
  have hshift : (fun k => P (n + k)) = P := by
    funext k
    rw [Nat.add_comm, hP]
  simp only [hshift] at hback
  rw [Nat.add_comm] at hback
  omega

/-- In as many consecutive values as the blocks are long together, a place comes up as often
as its own block is long. -/
theorem count_blockOf {a : A} {w : ℕ} {ps : List (A × ℕ)} (hps : (ps.map Prod.fst).Nodup)
    (ha : (a, w) ∈ ps) (c : ℕ) :
    Nat.count (fun k => blockOf ((c + k) % (ps.map Prod.snd).sum) ps 0 = some a)
      (ps.map Prod.snd).sum = w := by
  have hperiod : Function.Periodic
      (fun r => blockOf (r % (ps.map Prod.snd).sum) ps 0 = some a) (ps.map Prod.snd).sum := by
    intro r
    simp only [Nat.add_mod_right]
  have hcycle := count_blockOf_cycle hps ha 0
  simp only [Nat.zero_add] at hcycle
  rw [count_window hperiod c]
  exact (count_congr fun k hk => by rw [Nat.mod_eq_of_lt hk]).trans hcycle

end Shares
