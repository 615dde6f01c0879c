import Mathlib.Algebra.Order.Group.Multiset
import Mathlib.Tactic.Abel

/-!
# Media

A medium carries messages between parties. It may deliver them in any order, lose them and double
them. Its state keeps an account of all messages: those handed to it and the doubles are under way,
delivered or lost, and it doubles only what it was handed.
-/

structure Medium (A : Type) where
  sent : Multiset A
  doubled : Multiset A
  underWay : Multiset A
  delivered : Multiset A
  lost : Multiset A
  balance : sent + doubled = underWay + delivered + lost
  genuine : doubled ⊆ sent

namespace Medium

variable {A : Type}

def empty : Medium A := ⟨0, 0, 0, 0, 0, rfl, Multiset.Subset.refl 0⟩

/-- The messages are handed to the medium. -/
def send (m : Medium A) (xs : Multiset A) : Medium A where
  sent := m.sent + xs
  doubled := m.doubled
  underWay := m.underWay + xs
  delivered := m.delivered
  lost := m.lost
  balance := by
    calc m.sent + xs + m.doubled = m.sent + m.doubled + xs := add_right_comm _ _ _
      _ = m.underWay + m.delivered + m.lost + xs := by rw [m.balance]
      _ = m.underWay + xs + m.delivered + m.lost := by abel
  genuine := fun _ hx => Multiset.mem_add.mpr (.inl (m.genuine hx))

section Account

variable {m : Medium A} {x : A}

lemma mem_sent_of_mem_carried (hx : x ∈ m.underWay + m.delivered + m.lost) : x ∈ m.sent := by
  rw [← m.balance, Multiset.mem_add] at hx
  exact hx.elim id fun h => m.genuine h

lemma mem_sent_of_mem_underWay (hx : x ∈ m.underWay) : x ∈ m.sent :=
  mem_sent_of_mem_carried (by simp [hx])

lemma mem_sent_of_mem_delivered (hx : x ∈ m.delivered) : x ∈ m.sent :=
  mem_sent_of_mem_carried (by simp [hx])

lemma delivered_le (h : m.doubled = 0) : m.delivered ≤ m.sent := by
  have hbalance : m.sent = m.underWay + m.delivered + m.lost := by
    rw [← m.balance, h, add_zero]
  rw [hbalance, add_right_comm]
  exact Multiset.le_add_left _ _

/-- Nothing is under way, was lost or doubled. -/
structure Settled (m : Medium A) : Prop where
  underWay : m.underWay = 0
  lost : m.lost = 0
  doubled : m.doubled = 0

lemma Settled.delivered_eq (h : m.Settled) : m.delivered = m.sent := by
  have hbalance := m.balance
  rw [h.underWay, h.lost, h.doubled] at hbalance
  simpa using hbalance.symm

end Account

variable [DecidableEq A]

lemma erase_add_singleton {xs : Multiset A} {x : A} (hx : x ∈ xs) : xs.erase x + {x} = xs := by
  rw [add_comm, Multiset.singleton_add, Multiset.cons_erase hx]

/-- A message under way arrives. -/
def deliver (m : Medium A) (x : A) (hx : x ∈ m.underWay) : Medium A where
  sent := m.sent
  doubled := m.doubled
  underWay := m.underWay.erase x
  delivered := m.delivered + {x}
  lost := m.lost
  balance := by
    calc m.sent + m.doubled = m.underWay.erase x + {x} + m.delivered + m.lost := by
          rw [m.balance, erase_add_singleton hx]
      _ = m.underWay.erase x + (m.delivered + {x}) + m.lost := by abel
  genuine := m.genuine

lemma countP_deliver (P : A → Prop) [DecidablePred P] (m : Medium A) {x : A}
    (hx : x ∈ m.underWay) : (m.deliver x hx).delivered.countP P =
      m.delivered.countP P + if P x then 1 else 0 := by
  rw [deliver, Multiset.countP_add, ← Multiset.cons_zero, Multiset.countP_cons,
    Multiset.countP_zero, Nat.zero_add]

/-- A message under way is lost. -/
def lose (m : Medium A) (x : A) (hx : x ∈ m.underWay) : Medium A where
  sent := m.sent
  doubled := m.doubled
  underWay := m.underWay.erase x
  delivered := m.delivered
  lost := m.lost + {x}
  balance := by
    calc m.sent + m.doubled = m.underWay.erase x + {x} + m.delivered + m.lost := by
          rw [m.balance, erase_add_singleton hx]
      _ = m.underWay.erase x + m.delivered + (m.lost + {x}) := by abel
  genuine := m.genuine

/-- A message under way is doubled. -/
def double (m : Medium A) (x : A) (hx : x ∈ m.underWay) : Medium A where
  sent := m.sent
  doubled := m.doubled + {x}
  underWay := m.underWay + {x}
  delivered := m.delivered
  lost := m.lost
  balance := by
    calc m.sent + (m.doubled + {x}) = m.underWay + m.delivered + m.lost + {x} := by
          rw [← add_assoc, m.balance]
      _ = m.underWay + {x} + m.delivered + m.lost := by abel
  genuine := fun y hy => by
    rcases Multiset.mem_add.mp hy with hy | hy
    · exact m.genuine hy
    · exact Multiset.mem_singleton.mp hy ▸ mem_sent_of_mem_underWay hx

/-- What a medium does to the messages under way that nobody asked it for. -/
inductive Fault : Medium A → Medium A → Prop
  | lose (m : Medium A) (x : A) (hx : x ∈ m.underWay) : Fault m (m.lose x hx)
  | double (m : Medium A) (x : A) (hx : x ∈ m.underWay) : Fault m (m.double x hx)

variable {m m' : Medium A}

lemma Fault.sent_eq (h : Fault m m') : m'.sent = m.sent := by
  cases h <;> rfl

lemma Fault.delivered_eq (h : Fault m m') : m'.delivered = m.delivered := by
  cases h <;> rfl

lemma Fault.doubled_le (h : Fault m m') : m.doubled ≤ m'.doubled := by
  cases h with
  | lose x hx => exact le_refl _
  | double x hx => exact Multiset.le_add_right _ _

end Medium
