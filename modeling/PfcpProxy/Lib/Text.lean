import Mathlib.Data.List.Basic
import Mathlib.Control.Basic
import Mathlib.Data.Nat.Notation

/-!
# Text

Lines and separators, and readers: a reader takes a value off the front of a text, or fails and
leaves the text alone. This file gives the lines of a text, the monad of readers, numbers in a
radix, and what a reader takes: characters of a given kind.
-/

namespace Text

/-! ### Lines -/

/-- Drop one carriage return at the end. -/
def stripCr (l : List Char) : List Char := if l.getLast? = some '\r' then l.dropLast else l

/-- The lines of a text, `current` being what the first one starts with. -/
def linesFrom (current : List Char) : List Char → List (List Char)
  | [] => if current = [] then [] else [current]
  | c :: s =>
    if c = '\n' then stripCr current :: linesFrom [] s
    else linesFrom (current ++ [c]) s

/-- `str::lines`. -/
def lines (s : List Char) : List (List Char) := linesFrom [] s

/-- `str::split_once`. -/
def splitOnce (sep : Char) : List Char → Option (List Char × List Char)
  | [] => none
  | c :: s =>
    if c = sep then some ([], s) else (splitOnce sep s).map (fun x => (c :: x.1, x.2))

lemma splitOnce_append {sep : Char} {u : List Char} (hu : sep ∉ u) (v : List Char) :
    splitOnce sep (u ++ sep :: v) = some (u, v) := by
  induction u with
  | nil => simp [splitOnce]
  | cons c u ih =>
    rw [List.mem_cons, not_or] at hu
    rw [List.cons_append, splitOnce, if_neg (Ne.symm hu.1), ih hu.2]
    rfl

lemma linesFrom_append (current : List Char) {l : List Char} (hl : '\n' ∉ l) (s : List Char) :
    linesFrom current (l ++ '\n' :: s) = stripCr (current ++ l) :: lines s := by
  induction l generalizing current with
  | nil => simp [linesFrom, lines]
  | cons c l ih =>
    rw [List.mem_cons, not_or] at hl
    rw [List.cons_append, linesFrom, if_neg (Ne.symm hl.1), ih _ hl.2, List.append_assoc]
    rfl

lemma lines_flatMap {ls : List (List Char)} (hls : ∀ l ∈ ls, '\n' ∉ l ∧ '\r' ∉ l) :
    lines (ls.flatMap (· ++ ['\n'])) = ls := by
  induction ls with
  | nil => rfl
  | cons l ls ih =>
    obtain ⟨hn, hr⟩ := hls l List.mem_cons_self
    have hcr : stripCr l = l := if_neg fun h => hr (List.mem_of_getLast? h)
    rw [List.flatMap_cons, List.append_assoc, List.singleton_append, lines,
      linesFrom_append [] hn, List.nil_append, hcr,
      ih fun l' hl' => hls l' (List.mem_cons_of_mem _ hl')]

/-! ### Readers -/

/-- Take a value off the front of the text, if there is one. -/
def Reader (α : Type) : Type := List Char → Option (α × List Char)

namespace Reader

variable {α β : Type}

def bind (p : Reader α) (f : α → Reader β) : Reader β := fun s =>
  (p s).bind (fun x => f x.1 x.2)

instance : Monad Reader where
  pure a := fun s => some (a, s)
  bind := bind

/-- Take nothing, and fail. -/
def fail : Reader α := fun _ => none

/-- Try the first reader, then the second. -/
def orElse (p q : Reader α) : Reader α := fun s => (p s).or (q s)

/-- Take this character. -/
def givenChar (c : Char) : Reader Unit
  | [] => none
  | c' :: s => if c' = c then some ((), s) else none

/-- `char::to_digit`. -/
def toDigit (radix : ℕ) (c : Char) : Option ℕ :=
  let d := if '0' ≤ c ∧ c ≤ '9' then c.toNat - '0'.toNat
    else if 'a' ≤ c ∧ c ≤ 'z' then c.toNat - 'a'.toNat + 10
    else if 'A' ≤ c ∧ c ≤ 'Z' then c.toNat - 'A'.toNat + 10
    else radix
  if d < radix then some d else none

/-- The digits at the front of the text. -/
def takeDigits (radix : ℕ) : List Char → List ℕ × List Char
  | [] => ([], [])
  | c :: s =>
    match toDigit radix c with
    | some d => (d :: (takeDigits radix s).1, (takeDigits radix s).2)
    | none => ([], c :: s)

/-- The number with these digits. -/
def ofDigits (radix : ℕ) (ds : List ℕ) : ℕ := ds.foldl (fun n d => n * radix + d) 0

/-- Take a number below `bound`. -/
def number (radix : ℕ) (maxDigits : Option ℕ) (allowZeroPrefix : Bool) (bound : ℕ) : Reader ℕ :=
  fun s =>
    let ds := (takeDigits radix s).1
    if ds = [] ∨ maxDigits.any (· < ds.length) ∨
        allowZeroPrefix = false ∧ s.head? = some '0' ∧ 1 < ds.length ∨
        bound ≤ ofDigits radix ds then none
    else some (ofDigits radix ds, (takeDigits radix s).2)

/-- Take a value, behind a separator unless it is the first. -/
def separated (sep : Char) (index : ℕ) (p : Reader α) : Reader α :=
  if index = 0 then p else bind (givenChar sep) (fun _ => p)

/-- Read the whole text. -/
def readAll (p : Reader α) (s : List Char) : Option α :=
  match p s with
  | some (a, []) => some a
  | _ => none

/-! ### What a reader takes -/

/-- The reader takes only characters in `P`. -/
def Takes (P : Char → Prop) (p : Reader α) : Prop :=
  ∀ s a s', p s = some (a, s') → ∃ u, s = u ++ s' ∧ ∀ c ∈ u, P c

variable {P : Char → Prop} {p q : Reader α} {f : α → Reader β}

lemma takes_pure (a : α) : Takes P (pure a : Reader α) := by
  rintro s _ _ ⟨⟩
  exact ⟨[], rfl, by simp⟩

lemma takes_fail : Takes P (fail : Reader α) := by
  intro s a s' h
  cases h

lemma Takes.bind (hp : Takes P p) (hf : ∀ a, Takes P (f a)) : Takes P (p >>= f) := by
  intro s b s'' h
  obtain ⟨⟨a, s'⟩, ha, hb⟩ := Option.bind_eq_some_iff.mp h
  obtain ⟨u, rfl, hu⟩ := hp s a s' ha
  obtain ⟨v, rfl, hv⟩ := hf a s' b s'' hb
  refine ⟨u ++ v, by simp, fun c hc => ?_⟩
  rcases List.mem_append.mp hc with hc | hc
  · exact hu c hc
  · exact hv c hc

lemma Takes.orElse (hp : Takes P p) (hq : Takes P q) : Takes P (p.orElse q) := by
  intro s a s' h
  rcases Option.or_eq_some_iff.mp h with h | ⟨_, h⟩
  · exact hp s a s' h
  · exact hq s a s' h

lemma takes_givenChar {c : Char} (hc : P c) : Takes P (givenChar c) := by
  intro s a s' h
  cases s with
  | nil => cases h
  | cons c' s =>
    by_cases hcc : c' = c
    · simp only [givenChar, hcc, if_true, Option.some.injEq, Prod.mk.injEq] at h
      exact ⟨[c'], by simp [h.2], by simpa [hcc] using hc⟩
    · simp [givenChar, hcc] at h

lemma Takes.separated (hp : Takes P p) {sep : Char} (hsep : P sep) (index : ℕ) :
    Takes P (separated sep index p) := by
  unfold Reader.separated
  split
  · exact hp
  · exact (takes_givenChar hsep).bind fun _ => hp

lemma takeDigits_eq {radix : ℕ} (hP : ∀ c, (toDigit radix c).isSome → P c) (s : List Char) :
    ∃ u, s = u ++ (takeDigits radix s).2 ∧ ∀ c ∈ u, P c := by
  induction s with
  | nil => exact ⟨[], rfl, by simp⟩
  | cons c s ih =>
    cases hd : toDigit radix c with
    | none => exact ⟨[], by simp [takeDigits, hd], by simp⟩
    | some d =>
      obtain ⟨u, hs, hu⟩ := ih
      refine ⟨c :: u, ?_, ?_⟩
      · simp only [takeDigits, hd, List.cons_append]
        rw [← hs]
      · intro c' hc'
        rcases List.mem_cons.mp hc' with rfl | hc'
        · exact hP c' (by simp [hd])
        · exact hu c' hc'

lemma takes_number {radix : ℕ} (hP : ∀ c, (toDigit radix c).isSome → P c) (maxDigits : Option ℕ)
    (allowZeroPrefix : Bool) (bound : ℕ) :
    Takes P (number radix maxDigits allowZeroPrefix bound) := by
  intro s a s' h
  simp only [number, Option.ite_none_left_eq_some, Option.some.injEq, Prod.mk.injEq] at h
  rw [← h.2.2]
  exact takeDigits_eq hP s

/-- A text that is read as a whole is made of what the reader takes. -/
lemma Takes.readAll (hp : Takes P p) {s : List Char} {a : α} (h : p.readAll s = some a) :
    ∀ c ∈ s, P c := by
  unfold Reader.readAll at h
  split at h
  · rename_i b hb
    obtain ⟨u, hs, hu⟩ := hp s b [] hb
    rw [List.append_nil] at hs
    exact hs ▸ hu
  · cases h

end Reader

end Text
