import Mathlib.Data.List.Basic
import Mathlib.Data.Nat.Notation

/-!
# Followers of a log

A follower reads a growing log again and again, and does at each reading the entries from a
position on that it resumes at. It has done every entry once and in order as long as it
resumes at each reading where the last one has ended, or behind the end of a log that has not
grown. Where entries write under keys, so that the last one under a key counts, it may also resume
earlier and do entries again.
-/

namespace LogFollower

variable {α : Type} {log done : List α} {seen : ℕ}

/-- What has been done are the entries that the last reading has seen, each once and in
order. -/
structure Following (log done : List α) (seen : ℕ) : Prop where
  done_eq : done = log.take seen
  seen_le : seen ≤ log.length

lemma following_nil : Following ([] : List α) [] 0 := ⟨rfl, Nat.le_refl 0⟩

lemma Following.append (h : Following log done seen) (new : List α) :
    Following (log ++ new) done seen := by
  constructor
  · rw [List.take_append_of_le_length h.seen_le, h.done_eq]
  · rw [List.length_append]
    exact Nat.le_add_right_of_le h.seen_le

lemma following_all : Following log done log.length ↔ done = log := by
  constructor
  · intro h
    rw [h.done_eq, List.take_length]
  · rintro rfl
    exact ⟨(List.take_length).symm, Nat.le_refl _⟩

/-- A reading leaves nothing out and does nothing twice if and only if it resumes where the last
one has ended, up to the end of the log. -/
theorem Following.resume_iff (h : Following log done seen) (position : ℕ) :
    done ++ log.drop position = log ↔ min position log.length = seen := by
  have hlen : (log.take seen).length = seen := by
    rw [List.length_take]
    exact Nat.min_eq_left h.seen_le
  rw [h.done_eq]
  constructor
  · intro heq
    have hl := congrArg List.length heq
    rw [List.length_append, hlen, List.length_drop] at hl
    have hle := h.seen_le
    omega
  · intro hmin
    rcases Nat.le_total position log.length with hle | hle
    · rw [Nat.min_eq_left hle] at hmin
      rw [hmin, List.take_append_drop]
    · rw [Nat.min_eq_right hle] at hmin
      rw [← hmin, List.take_length, List.drop_eq_nil_of_le hle, List.append_nil]

/-! ### Entries done again -/

section Writes

variable {K : Type} [DecidableEq K] {key : α → K}

/-- The last entry under a key. -/
def lastWrite (key : α → K) (log : List α) (k : K) : Option α :=
  (log.filter fun x => key x = k).getLast?

lemma lastWrite_append (log log' : List α) (k : K) :
    lastWrite key (log ++ log') k = (lastWrite key log' k).or (lastWrite key log k) := by
  rw [lastWrite, List.filter_append, List.getLast?_append]
  rfl

lemma lastWrite_singleton (x : α) (k : K) :
    lastWrite key [x] k = if key x = k then some x else none := by
  unfold lastWrite
  split
  next h => simp [h]
  next h => simp [h]

lemma lastWrite_eq_none {log : List α} {k : K} :
    lastWrite key log k = none ↔ ∀ x ∈ log, key x ≠ k := by
  simp [lastWrite]

/-- What has been done are entries of the log, and under each key the last one is the last of
those that have been seen. -/
structure Settled (key : α → K) (log done : List α) (seen : ℕ) : Prop where
  mem : ∀ x ∈ done, x ∈ log
  writes : ∀ k, lastWrite key done k = lastWrite key (log.take seen) k
  seen_le : seen ≤ log.length

lemma settled_nil : Settled key ([] : List α) [] 0 := ⟨by simp, fun _ => rfl, Nat.le_refl 0⟩

lemma Settled.append (h : Settled key log done seen) (new : List α) :
    Settled key (log ++ new) done seen where
  mem x hx := List.mem_append_left _ (h.mem x hx)
  writes k := by rw [List.take_append_of_le_length h.seen_le, h.writes]
  seen_le := by
    rw [List.length_append]
    exact Nat.le_add_right_of_le h.seen_le

/-- A reading that resumes no later than where the last one has ended settles the whole log. -/
theorem Settled.resume (h : Settled key log done seen) {position : ℕ} (hle : position ≤ seen) :
    Settled key log (done ++ log.drop position) log.length where
  mem x hx := (List.mem_append.mp hx).elim (h.mem x) List.mem_of_mem_drop
  writes k := by
    have hlog : lastWrite key log k =
        (lastWrite key (log.drop position) k).or (lastWrite key (log.take position) k) := by
      rw [← lastWrite_append, List.take_append_drop]
    rw [List.take_length, lastWrite_append, h.writes, hlog]
    cases hdrop : lastWrite key (log.drop position) k with
    | some x => rfl
    | none =>
      -- Nothing is written under the key behind `position`.
      have hbetween : lastWrite key ((log.drop position).take (seen - position)) k = none := by
        rw [lastWrite_eq_none] at hdrop ⊢
        exact fun x hx => hdrop x (List.mem_of_mem_take hx)
      have hsplit : log.take seen =
          log.take position ++ (log.drop position).take (seen - position) := by
        rw [← List.take_add, Nat.add_sub_cancel' hle]
      rw [hsplit, lastWrite_append, hbetween]
      rfl
  seen_le := Nat.le_refl _

lemma Settled.all (h : Settled key log done seen) (hseen : seen = log.length) (k : K) :
    lastWrite key done k = lastWrite key log k := by
  rw [h.writes, hseen, List.take_length]

end Writes

end LogFollower
