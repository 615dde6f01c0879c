import PfcpProxy.Lib.Serialization
import Mathlib.Algebra.Order.BigOperators.Group.List
import Mathlib.Data.Int.CardIntervalMod

/-!
# What programs and runs cost

Operations have a cost. A program has a bound on the cost of its paths as long as the answers it
gets are within given limits; the bounds of the handlers add up to a bound for a run.
-/

namespace AtomicTasks

variable {Op : Type} {Res : Op → Type} {α β : Type} {ok : Act Res → Prop} {cost : Op → ℕ}

/-- As long as the answers are `ok`, the operations of the program cost at most `n`, and the
value it returns satisfies `Q`. -/
def CostAtMost (ok : Act Res → Prop) (cost : Op → ℕ) (Q : α → Prop) : Prog Res α → ℕ → Prop
  | .done a, _ => Q a
  | .act o k, n => cost o ≤ n ∧ ∀ r, ok ⟨o, r⟩ → CostAtMost ok cost Q (k r) (n - cost o)

@[simp] lemma costAtMost_done {Q : α → Prop} {a : α} {n : ℕ} :
    CostAtMost ok cost Q (.done a) n ↔ Q a := Iff.rfl

@[simp] lemma costAtMost_act {Q : α → Prop} {o : Op} {k : Res o → Prog Res α} {n : ℕ} :
    CostAtMost ok cost Q (.act o k) n ↔
      cost o ≤ n ∧ ∀ r, ok ⟨o, r⟩ → CostAtMost ok cost Q (k r) (n - cost o) := Iff.rfl

@[simp] lemma costAtMost_call {o : Op} {Q : Res o → Prop} {n : ℕ} :
    CostAtMost ok cost Q (Prog.call o) n ↔ cost o ≤ n ∧ ∀ r, ok ⟨o, r⟩ → Q r := Iff.rfl

lemma CostAtMost.mono {Q Q' : α → Prop} {p : Prog Res α} {n m : ℕ}
    (h : CostAtMost ok cost Q p n) (hQ : ∀ a, Q a → Q' a) (hnm : n ≤ m) :
    CostAtMost ok cost Q' p m := by
  induction p generalizing n m with
  | done a => exact hQ a h
  | act o k ih =>
    rw [costAtMost_act] at h ⊢
    exact ⟨h.1.trans hnm, fun r hr => ih r (h.2 r hr) (by omega)⟩

lemma CostAtMost.bind {R : α → Prop} {Q : β → Prop} {p : Prog Res α} {f : α → Prog Res β}
    {n m : ℕ} (hp : CostAtMost ok cost R p n) (hf : ∀ a, R a → CostAtMost ok cost Q (f a) m) :
    CostAtMost ok cost Q (p >>= f) (n + m) := by
  induction p generalizing n with
  | done a => exact (hf a hp).mono (fun _ h => h) (by omega)
  | act o k ih =>
    rw [costAtMost_act] at hp
    rw [Prog.act_bind, costAtMost_act]
    refine ⟨by omega, fun r hr => ?_⟩
    have hrest := ih r (hp.2 r hr)
    exact hrest.mono (fun _ h => h) (by omega)

lemma costAtMost_of_only {p : Prog Res α} (hp : Only (fun o => cost o = 0) p) (n : ℕ) :
    CostAtMost ok cost (fun _ => True) p n := by
  induction p generalizing n with
  | done a => trivial
  | act o k ih =>
    rw [costAtMost_act, hp.1]
    exact ⟨Nat.zero_le n, fun r _ => ih r (hp.2 r) _⟩

lemma CostAtMost.free {Q : α → Prop} {p : Prog Res α} {n : ℕ} (h : CostAtMost ok cost Q p n)
    {cost' : Op → ℕ} (hfree : Only (fun o => cost' o = 0) p) : CostAtMost ok cost' Q p 0 := by
  induction p generalizing n with
  | done a => exact h
  | act o k ih =>
    rw [costAtMost_act] at h ⊢
    rw [hfree.1]
    exact ⟨le_rfl, fun r hr => ih r (h.2 r hr) (hfree.2 r)⟩

/-- The cost of a list of acts. -/
def totalCost (cost : Op → ℕ) (l : List (Act Res)) : ℕ := (l.map fun a => cost a.op).sum

lemma sum_map_ite_one {A : Type} (P : A → Bool) (xs : List A) :
    (xs.map fun x => if P x then 1 else 0).sum = xs.countP P := by
  induction xs with
  | nil => rfl
  | cons x xs ih => simp [List.countP_cons, ih, Nat.add_comm]

lemma sum_map_ite_le {A : Type} {P : A → Bool} {f : A → ℕ} {n : ℕ} {xs : List A}
    (h : ∀ x ∈ xs, P x = true → f x ≤ n) :
    (xs.map fun x => if P x then f x else 0).sum ≤ xs.countP P * n := by
  induction xs with
  | nil => simp
  | cons x xs ih =>
    have hrest := ih fun y hy => h y (List.mem_cons_of_mem _ hy)
    rw [List.map_cons, List.sum_cons, List.countP_cons]
    split
    next hP =>
      have hx := h x (List.mem_cons_self ..) hP
      rw [Nat.add_mul, Nat.one_mul]
      omega
    next => simpa using hrest

lemma totalCost_append (l l' : List (Act Res)) :
    totalCost cost (l ++ l') = totalCost cost l + totalCost cost l' := by
  simp [totalCost]

lemma totalCost_flatMap_le {A : Type} {xs : List A} {f : A → List (Act Res)} {g : A → ℕ}
    (h : ∀ x ∈ xs, totalCost cost (f x) ≤ g x) :
    totalCost cost (xs.flatMap f) ≤ (xs.map g).sum := by
  induction xs with
  | nil => simp [totalCost]
  | cons x xs ih =>
    have hx := h x (List.mem_cons_self ..)
    have hxs := ih fun y hy => h y (List.mem_cons_of_mem _ hy)
    rw [List.flatMap_cons, totalCost_append, List.map_cons, List.sum_cons]
    omega

lemma CostAtMost.path {Q : α → Prop} {p q : Prog Res α} {n : ℕ} {l : List (Act Res)}
    (h : CostAtMost ok cost Q p n) (hp : Path p l q) (hok : ∀ a ∈ l, ok a) :
    totalCost cost l ≤ n := by
  induction hp generalizing n with
  | nil => simp [totalCost]
  | @cons o k l q r hp ih =>
    rw [costAtMost_act] at h
    have hrest := ih (h.2 r (hok _ (List.mem_cons_self ..)))
      fun a ha => hok a (List.mem_cons_of_mem _ ha)
    have hcons : totalCost cost (⟨o, r⟩ :: l) = cost o + totalCost cost l := by simp [totalCost]
    rw [hcons]
    omega

section Runs

variable {σ M E Ω : Type} {S : System Res σ M E Ω} {s : σ} {h : List (Event Res σ M E)}
  {c : Config Res σ M}

/-- The acts of a run are those of the tasks of its messages. -/
lemma Run.allActs_perm (hr : Run S s h c) :
    (allActs h).Perm ((receptions h).flatMap fun x => acts x.1 h) := by
  have hperm := AtomicTasks.allActs_perm c.tasks.length h fun _ _ _ => hr.act_lt
  rwa [← hr.receptions_fst, List.flatMap_map] at hperm

lemma tally_eq_countP (P : Op → Bool) (h : List (Event Res σ M E)) :
    tally P h = (allActs h).countP fun a => P a.op := by
  induction h with
  | nil => rfl
  | cons e h ih =>
    cases e with
    | act i a pre =>
      rw [tally_act, ih]
      exact (List.countP_cons ..).symm
    | recv i m => exact ih
    | env e pre => exact ih

/-- Acts are counted message by message. -/
lemma Run.tally_eq_sum_receptions (P : Op → Bool) (hr : Run S s h c) :
    tally P h = ((receptions h).map fun x => (acts x.1 h).countP fun a => P a.op).sum := by
  rw [tally_eq_countP, hr.allActs_perm.countP_eq, List.countP_flatMap]
  rfl

/-- What happens in a run costs at most what the handlers of its messages may cost together. -/
theorem Run.totalCost_le {Q : Unit → Prop} {bound : M → ℕ}
    (hbound : ∀ m, CostAtMost ok cost Q (S.handler m) (bound m)) (hr : Run S s h c)
    (hok : ∀ i, ∀ a ∈ acts i h, ok a) :
    totalCost cost (allActs h) ≤ ((receptions h).map fun x => bound x.2).sum := by
  have hall : totalCost cost (allActs h) =
      totalCost cost ((receptions h).flatMap fun x => acts x.1 h) :=
    (hr.allActs_perm.map _).sum_eq
  rw [hall]
  apply totalCost_flatMap_le
  intro x hx
  obtain ⟨p, _, hpath⟩ := hr.handler_path (mem_receptions_iff.mp hx)
  exact (hbound x.2).path hpath (hok x.1)

end Runs

end AtomicTasks
