import Mathlib.Data.Nat.Notation
import Mathlib.Data.Set.Basic
import Mathlib.Logic.Relation

/-!
# Placing work on a least loaded place

Work is assigned to a place with the fewest arrivals and arrives there later, so that
several assignments can be made from the same counts. As long as no place has more than `k`
assignments underway, the arrivals at any two places stay within `k` of each other.
-/

namespace LeastLoaded

/-- How much has arrived at each place, and how much is underway to it. -/
@[ext] structure Load (A : Type) where
  arrived : A → ℕ
  underway : A → ℕ

variable {A : Type}

def Load.zero : Load A := ⟨fun _ => 0, fun _ => 0⟩

/-- Whatever is or will be at a place exceeds the arrivals at no other by more than `k`. -/
def Balanced (S : Set A) (k : ℕ) (s : Load A) : Prop :=
  ∀ a ∈ S, ∀ b ∈ S, s.arrived a + s.underway a ≤ s.arrived b + k

variable {S : Set A} {k : ℕ} {s s' : Load A}

lemma balanced_zero : Balanced S k (Load.zero : Load A) :=
  fun _ _ _ _ => Nat.zero_le _

/-- The arrivals at any two places are within `k` of each other. -/
theorem Balanced.arrived_le (h : Balanced S k s) {a b : A} (ha : a ∈ S) (hb : b ∈ S) :
    s.arrived a ≤ s.arrived b + k := by
  have hab := h a ha b hb
  omega

namespace Load

variable [DecidableEq A]

def assign (s : Load A) (a : A) : Load A :=
  { s with underway := Function.update s.underway a (s.underway a + 1) }

def arrive (s : Load A) (a : A) : Load A :=
  ⟨Function.update s.arrived a (s.arrived a + 1), Function.update s.underway a (s.underway a - 1)⟩

end Load

variable [DecidableEq A]

/-- Work for one of the places `S` is assigned to one with the fewest arrivals, which leaves
at most `k` underway there; or something arrives that was underway. -/
inductive Step (S : Set A) (k : ℕ) : Load A → Load A → Prop
  | assign (s : Load A) (a : A) (hleast : ∀ b ∈ S, s.arrived a ≤ s.arrived b)
      (hk : s.underway a < k) : Step S k s (s.assign a)
  | arrive (s : Load A) (a : A) (hunderway : 0 < s.underway a) : Step S k s (s.arrive a)

lemma Balanced.step (h : Balanced S k s) (hs : Step S k s s') : Balanced S k s' := by
  intro b hb c hc
  have hbc := h b hb c hc
  cases hs with
  | assign a hleast hk =>
    -- the place had the fewest arrivals, so only what is underway there counts
    by_cases hba : b = a
    · subst hba
      have hle := hleast c hc
      simp only [Load.assign, Function.update_self]
      omega
    · simpa [Load.assign, hba] using hbc
  | arrive a hunderway =>
    by_cases hba : b = a
    · subst hba
      by_cases hcb : c = b
      · subst hcb
        simp only [Load.arrive, Function.update_self]
        omega
      · simp only [Load.arrive, Function.update_self, Function.update_of_ne hcb]
        omega
    · by_cases hca : c = a
      · subst hca
        simp only [Load.arrive, Function.update_self, Function.update_of_ne hba]
        omega
      · simpa [Load.arrive, hba, hca] using hbc

/-- Every load that steps lead to is balanced. -/
theorem balanced_of_steps (hs : Relation.ReflTransGen (Step S k) Load.zero s) : Balanced S k s := by
  induction hs with
  | refl => exact balanced_zero
  | tail _ hs ih => exact ih.step hs

end LeastLoaded
