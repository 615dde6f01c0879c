import PfcpProxy.Lib.Text
import Mathlib.Data.Nat.Digits.Defs

/-!
# Reading back what was printed

A reader that is given a printed value, with more text behind it, returns the value and leaves
that text. This file has the rule for sequences of readers and the case of numbers, which
`Nat.toDigits` prints without leading zeros.
-/

namespace Text.Reader

variable {α β : Type} {radix : ℕ}

/-! ### Steps of a reader -/

lemma bind_eq {p : Reader α} {f : α → Reader β} {s s' : List Char} {a : α}
    (h : p s = some (a, s')) : (p >>= f) s = f a s' := by
  show (p s).bind _ = _
  rw [h]
  rfl

lemma bind_eq_none {p : Reader α} {s : List Char} (h : p s = none) (f : α → Reader β) :
    (p >>= f) s = none := by
  show (p s).bind _ = _
  rw [h]
  rfl

lemma bind_eq_some {p : Reader α} {f : α → Reader β} {s s'' : List Char} {b : β}
    (h : (p >>= f) s = some (b, s'')) : ∃ a s', p s = some (a, s') ∧ f a s' = some (b, s'') := by
  obtain ⟨⟨a, s'⟩, ha, hb⟩ := Option.bind_eq_some_iff.mp h
  exact ⟨a, s', ha, hb⟩

lemma orElse_eq_left {p q : Reader α} {s s' : List Char} {a : α} (h : p s = some (a, s')) :
    p.orElse q s = some (a, s') := by
  rw [orElse, h, Option.some_or]

lemma orElse_eq_right {p q : Reader α} {s : List Char} (h : p s = none) :
    p.orElse q s = q s := by
  rw [orElse, h, Option.none_or]

lemma givenChar_cons (c : Char) (s : List Char) : givenChar c (c :: s) = some ((), s) := by
  simp [givenChar]

lemma givenChar_eq_none {c : Char} {s : List Char} (h : s.head? ≠ some c) :
    givenChar c s = none := by
  cases s with
  | nil => rfl
  | cons c' s => simpa [givenChar] using h

lemma separated_eq_none {sep : Char} {index : ℕ} {p : Reader α} {s : List Char}
    (hp : p s = none) (hsep : ∀ s', s = sep :: s' → p s' = none) :
    separated sep index p s = none := by
  unfold separated
  split
  · exact hp
  · cases s with
    | nil => rfl
    | cons c s =>
      by_cases hc : c = sep
      · subst hc
        exact (bind_eq (givenChar_cons c s)).trans (hsep s rfl)
      · exact bind_eq_none (givenChar_eq_none (by simpa using hc)) _

/-! ### Digits -/

lemma toDigit_digitChar (hradix : radix ≤ 16) {d : ℕ} (hd : d < radix) :
    toDigit radix (Nat.digitChar d) = some d := by
  have hall : ∀ d < 16, toDigit 16 (Nat.digitChar d) = some d := by decide
  have h16 := hall d (by omega)
  unfold toDigit at h16 ⊢
  dsimp only at h16 ⊢
  split_ifs at h16 ⊢ <;> simp_all <;> omega

/-- The text does not go on with a digit. -/
def NoDigitNext (radix : ℕ) (s : List Char) : Prop := ∀ c ∈ s.head?, toDigit radix c = none

lemma takeDigits_of_noDigitNext {s : List Char} (hs : NoDigitNext radix s) :
    takeDigits radix s = ([], s) := by
  cases s with
  | nil => rfl
  | cons c s => simp [takeDigits, hs c rfl]

lemma takeDigits_cons {c : Char} {d : ℕ} (hc : toDigit radix c = some d) (s : List Char) :
    takeDigits radix (c :: s) = (d :: (takeDigits radix s).1, (takeDigits radix s).2) := by
  simp [takeDigits, hc]

lemma ofDigits_append_singleton (ds : List ℕ) (d : ℕ) :
    ofDigits radix (ds ++ [d]) = ofDigits radix ds * radix + d := by
  simp [ofDigits]

lemma takeDigits_toDigits (h1 : 1 < radix) (h16 : radix ≤ 16) (n : ℕ) :
    ∃ ds, ofDigits radix ds = n ∧ ds.length = (Nat.toDigits radix n).length ∧
      ∀ s, takeDigits radix (Nat.toDigits radix n ++ s) =
        (ds ++ (takeDigits radix s).1, (takeDigits radix s).2) := by
  induction n using Nat.strong_induction_on with
  | h n ih =>
    rw [Nat.toDigits_eq_if h1]
    split
    · rename_i hn
      exact ⟨[n], by simp [ofDigits], rfl, fun s => takeDigits_cons (toDigit_digitChar h16 hn) s⟩
    · rename_i hn
      obtain ⟨ds, hds, hlength, htake⟩ := ih (n / radix) (Nat.div_lt_self (by omega) h1)
      refine ⟨ds ++ [n % radix], ?_, by simp [hlength], fun s => ?_⟩
      · rw [ofDigits_append_singleton, hds, Nat.div_add_mod']
      · rw [List.append_assoc, htake, List.singleton_append,
          takeDigits_cons (toDigit_digitChar h16 (Nat.mod_lt n (by omega)))]
        simp

lemma head?_toDigits_ne (h1 : 1 < radix) {n : ℕ} (hn : 0 < n) (s : List Char) :
    (Nat.toDigits radix n ++ s).head? ≠ some '0' := by
  induction n using Nat.strong_induction_on generalizing s with
  | h n ih =>
    rw [Nat.toDigits_eq_if h1]
    split
    · simpa using hn.ne'
    · rename_i hle
      rw [List.append_assoc]
      exact ih (n / radix) (Nat.div_lt_self hn h1) (Nat.div_pos (by omega) (by omega)) _

/-- A printed number is read back. -/
theorem number_toDigits (h1 : 1 < radix) (h16 : radix ≤ 16) {maxDigits : Option ℕ}
    (allowZeroPrefix : Bool) {bound n : ℕ} (hmax : ∀ k ∈ maxDigits, 0 < k ∧ n < radix ^ k)
    (hn : n < bound) {s : List Char} (hs : NoDigitNext radix s) :
    number radix maxDigits allowZeroPrefix bound (Nat.toDigits radix n ++ s) = some (n, s) := by
  obtain ⟨ds, hds, hlength, htake⟩ := takeDigits_toDigits h1 h16 n
  have hpos : 0 < ds.length := by
    rw [hlength]
    exact Nat.length_toDigits_pos
  have hlong : ¬ maxDigits.any (· < ds.length) := by
    rw [Option.any_eq_true]
    rintro ⟨k, hk, hlt⟩
    obtain ⟨hk0, hnk⟩ := hmax k hk
    have hle := (Nat.length_toDigits_le_iff h1 hk0).mpr hnk
    rw [decide_eq_true_eq] at hlt
    omega
  have hzero : (Nat.toDigits radix n ++ s).head? = some '0' → ds.length = 1 := by
    intro hhead
    obtain rfl | hpos' := Nat.eq_zero_or_pos n
    · rw [hlength, Nat.toDigits_zero, List.length_singleton]
    · exact absurd hhead (head?_toDigits_ne h1 hpos' s)
  have hds' : (takeDigits radix (Nat.toDigits radix n ++ s)) = (ds, s) := by
    rw [htake, takeDigits_of_noDigitNext hs, List.append_nil]
  unfold number
  simp only [hds', hds]
  rw [if_neg]
  rintro (h | h | ⟨_, h, hlt⟩ | h)
  · simp [h] at hpos
  · exact hlong h
  · have hone := hzero h
    omega
  · omega

lemma number_eq_none (maxDigits : Option ℕ) (allowZeroPrefix : Bool) (bound : ℕ) {s : List Char}
    (hs : NoDigitNext radix s) : number radix maxDigits allowZeroPrefix bound s = none := by
  simp [number, takeDigits_of_noDigitNext hs]

end Text.Reader
