import PfcpProxy.Lib.Prog
import Mathlib.Data.List.Induction
import Mathlib.Algebra.BigOperators.Group.Finset.Piecewise

/-!
# Interleavings of tasks

A `System` starts one task for each message it receives; the tasks and the environment
share one state. A `Run` is any interleaving of receptions, single acts of started tasks
and environment steps, and carries its whole history. This file projects a history to the
acts of one task (`acts`), transfers what is `Guarded` in every handler to every history,
and replays schedules by computation.
-/

namespace AtomicTasks

structure System {Op : Type} (Res : Op → Type) (σ M E Ω : Type) where
  exec : (o : Op) → Ω → σ → Res o × σ
  env : E → σ → σ
  handler : M → Prog Res Unit

/-- A message together with what is left to do of its handler. -/
structure Task {Op : Type} (Res : Op → Type) (M : Type) where
  msg : M
  prog : Prog Res Unit

structure Config {Op : Type} (Res : Op → Type) (σ M : Type) where
  shared : σ
  tasks : List (Task Res M)

/-- Entries of a history. Acts and environment steps record the state they were done in. -/
inductive Event {Op : Type} (Res : Op → Type) (σ M E : Type)
  | recv (i : ℕ) (m : M)
  | act (i : ℕ) (a : Act Res) (pre : σ)
  | env (e : E) (pre : σ)

variable {Op : Type} {Res : Op → Type} {σ M E Ω : Type}

/-- One atomic step of the system. -/
inductive Step (S : System Res σ M E Ω) :
    Config Res σ M → Event Res σ M E → Config Res σ M → Prop
  | recv (c : Config Res σ M) (m : M) :
    Step S c (.recv c.tasks.length m) ⟨c.shared, c.tasks ++ [⟨m, S.handler m⟩]⟩
  | act (c : Config Res σ M) (i : ℕ) (m : M) (o : Op) (k : Res o → Prog Res Unit) (w : Ω)
      (h : c.tasks[i]? = some ⟨m, .act o k⟩) :
    Step S c (.act i ⟨o, (S.exec o w c.shared).1⟩ c.shared)
      ⟨(S.exec o w c.shared).2, c.tasks.set i ⟨m, k (S.exec o w c.shared).1⟩⟩
  | env (c : Config Res σ M) (e : E) :
    Step S c (.env e c.shared) ⟨S.env e c.shared, c.tasks⟩

/-- `Run S s h c`: from the state `s` without tasks, the history `h` leads to `c`. -/
inductive Run (S : System Res σ M E Ω) (s : σ) : List (Event Res σ M E) → Config Res σ M → Prop
  | nil : Run S s [] ⟨s, []⟩
  | snoc {h : List (Event Res σ M E)} {c c' : Config Res σ M} {e : Event Res σ M E}
      (hr : Run S s h c) (hs : Step S c e c') : Run S s (h ++ [e]) c'

/-! ### The acts of one task -/

def Event.actOf (i : ℕ) : Event Res σ M E → Option (Act Res)
  | .act j a _ => if j = i then some a else none
  | _ => none

/-- The acts of task `i`, in order. -/
def acts (i : ℕ) (h : List (Event Res σ M E)) : List (Act Res) := h.filterMap (Event.actOf i)

@[simp] lemma acts_nil (i : ℕ) : acts i ([] : List (Event Res σ M E)) = [] := rfl

@[simp] lemma acts_append (i : ℕ) (h h' : List (Event Res σ M E)) :
    acts i (h ++ h') = acts i h ++ acts i h' := List.filterMap_append

@[simp] lemma acts_recv (i j : ℕ) (m : M) (h : List (Event Res σ M E)) :
    acts i (.recv j m :: h) = acts i h := rfl

@[simp] lemma acts_env (i : ℕ) (e : E) (pre : σ) (h : List (Event Res σ M E)) :
    acts i (.env e pre :: h) = acts i h := rfl

@[simp] lemma acts_act_self (i : ℕ) (a : Act Res) (pre : σ) (h : List (Event Res σ M E)) :
    acts i (.act i a pre :: h) = a :: acts i h := by
  simp [acts, Event.actOf]

@[simp] lemma acts_act_of_ne {i j : ℕ} (hij : j ≠ i) (a : Act Res) (pre : σ)
    (h : List (Event Res σ M E)) : acts i (.act j a pre :: h) = acts i h := by
  simp [acts, Event.actOf, hij]

lemma mem_acts_iff {i : ℕ} {a : Act Res} {h : List (Event Res σ M E)} :
    a ∈ acts i h ↔ ∃ pre, .act i a pre ∈ h := by
  simp only [acts, List.mem_filterMap]
  constructor
  · rintro ⟨e, he, hae⟩
    cases e with
    | act j b pre =>
      by_cases hj : j = i
      · subst hj
        simp only [Event.actOf, if_true, Option.some.injEq] at hae
        exact ⟨pre, hae ▸ he⟩
      · simp [Event.actOf, hj] at hae
    | recv j m => cases hae
    | env e pre => cases hae
  · rintro ⟨pre, he⟩
    exact ⟨_, he, by simp [Event.actOf]⟩

/-- The receptions of a history, with the tasks they start. -/
def receptions (h : List (Event Res σ M E)) : List (ℕ × M) :=
  h.filterMap (fun e => match e with
    | .recv i m => some (i, m)
    | _ => none)

lemma mem_receptions_iff {i : ℕ} {m : M} {h : List (Event Res σ M E)} :
    (i, m) ∈ receptions h ↔ .recv i m ∈ h := by
  simp only [receptions, List.mem_filterMap]
  constructor
  · rintro ⟨e, he, hm⟩
    cases e with
    | recv j m' =>
      simp only [Option.some.injEq, Prod.mk.injEq] at hm
      obtain ⟨rfl, rfl⟩ := hm
      exact he
    | act j a pre => cases hm
    | env e pre => cases hm
  · intro he
    exact ⟨_, he, rfl⟩

lemma receptions_append (h h' : List (Event Res σ M E)) :
    receptions (h ++ h') = receptions h ++ receptions h' := List.filterMap_append

lemma mem_acts_append_cons (i : ℕ) (a : Act Res) (pre : σ) (h h' : List (Event Res σ M E)) :
    a ∈ acts i (h ++ .act i a pre :: h') := by
  simp

/-- An act of a task splits its history where it happened. -/
lemma exists_split_of_mem_acts {i : ℕ} {a : Act Res} {h : List (Event Res σ M E)}
    (ha : a ∈ acts i h) : ∃ h₁ pre h₂, h = h₁ ++ .act i a pre :: h₂ := by
  obtain ⟨pre, hp⟩ := mem_acts_iff.mp ha
  obtain ⟨h₁, h₂, rfl⟩ := List.append_of_mem hp
  exact ⟨h₁, pre, h₂, rfl⟩

/-- In a history that ends with a reception and no later one, a reception is that one or
comes before it. -/
lemma recv_split {x y p t : List (Event Res σ M E)} {i j : ℕ} {m m' : M}
    (h : x ++ .recv j m :: y = p ++ .recv i m' :: t) (ht : ∀ k n, .recv k n ∉ t) :
    (x = p ∧ j = i ∧ m = m') ∨ ∃ y', x ++ .recv j m :: y' = p := by
  rcases List.append_eq_append_iff.mp h with ⟨z, rfl, hz⟩ | ⟨z, rfl, hz⟩
  · cases z with
    | nil =>
      simp only [List.nil_append, List.cons.injEq, Event.recv.injEq] at hz
      exact .inl ⟨by simp, hz.1⟩
    | cons e z =>
      simp only [List.cons_append, List.cons.injEq] at hz
      exact .inr ⟨z, by rw [hz.1]⟩
  · cases z with
    | nil =>
      simp only [List.nil_append, List.cons.injEq, Event.recv.injEq] at hz
      exact .inl ⟨by simp, hz.1.1.symm, hz.1.2.symm⟩
    | cons e z =>
      simp only [List.cons_append, List.cons.injEq] at hz
      exact absurd (by rw [hz.2]; simp) (ht j m)

/-- The same for a history of two receptions, the first of which is at its front. -/
lemma recv_split_two {x y t t' : List (Event Res σ M E)} {i i' j : ℕ} {m m' n : M}
    (h : ([] ++ .recv i m :: t) ++ .recv i' m' :: t' = x ++ .recv j n :: y)
    (ht : ∀ k n, .recv k n ∉ t) (ht' : ∀ k n, .recv k n ∉ t') :
    x = [] ++ .recv i m :: t ∧ j = i' ∧ n = m' ∨ j = i ∧ n = m := by
  rcases recv_split h.symm ht' with h | ⟨y', h⟩
  · exact .inl h
  · rcases recv_split h ht with h | ⟨y', h⟩
    · exact .inr h.2
    · simp at h

/-! ### What held last -/

/-- `P` held of an entry of the list, and `Q` of none behind it. Both see what is in front. -/
def Since {α : Type} (P Q : List α → α → Prop) (h : List α) : Prop :=
  ∃ x e y, h = x ++ e :: y ∧ P x e ∧ ∀ y₁ e' y₂, y = y₁ ++ e' :: y₂ → ¬Q (x ++ e :: y₁) e'

lemma not_since_nil {α : Type} {P Q : List α → α → Prop} : ¬Since P Q [] := by
  rintro ⟨x, e, y, h, _⟩
  simp at h

lemma since_snoc_iff {α : Type} {P Q : List α → α → Prop} {h : List α} {e : α} :
    Since P Q (h ++ [e]) ↔ P h e ∨ Since P Q h ∧ ¬Q h e := by
  constructor
  · rintro ⟨x, e', y, heq, hP, hQ⟩
    rcases List.eq_nil_or_concat y with rfl | ⟨y', e'', rfl⟩
    · obtain ⟨rfl, he⟩ := List.append_inj' heq rfl
      obtain rfl : e = e' := by simpa using he
      exact .inl hP
    · rw [List.concat_eq_append, ← List.cons_append, ← List.append_assoc] at heq
      obtain ⟨rfl, he⟩ := List.append_inj' heq rfl
      obtain rfl : e = e'' := by simpa using he
      refine .inr ⟨⟨x, e', y', rfl, hP, fun y₁ d y₂ hy => hQ y₁ d (y₂ ++ [e]) ?_⟩, hQ y' e [] ?_⟩
      · rw [List.concat_eq_append, hy, List.append_assoc, List.cons_append]
      · rw [List.concat_eq_append]
  · rintro (hP | ⟨⟨x, e', y, rfl, hP, hQ⟩, hlast⟩)
    · exact ⟨h, e, [], rfl, hP, by simp⟩
    · refine ⟨x, e', y ++ [e], by simp, hP, fun y₁ d y₂ hy => ?_⟩
      rcases List.eq_nil_or_concat y₂ with rfl | ⟨y₂', d', rfl⟩
      · obtain ⟨rfl, hd⟩ := List.append_inj' hy rfl
        obtain rfl : e = d := by simpa using hd
        exact hlast
      · rw [List.concat_eq_append, ← List.cons_append, ← List.append_assoc] at hy
        exact hQ y₁ d y₂' (List.append_inj' hy rfl).1

/-! ### Runs and their prefixes -/

variable {S : System Res σ M E Ω} {s : σ} {h h₁ h₂ : List (Event Res σ M E)}
  {c : Config Res σ M}

lemma run_nil_iff : Run S s [] c ↔ c = ⟨s, []⟩ := by
  constructor
  · generalize he : ([] : List (Event Res σ M E)) = h'
    rintro (_ | ⟨hr, hs⟩)
    · rfl
    · simp at he
  · rintro rfl
    exact .nil

lemma run_snoc_iff {e : Event Res σ M E} {c' : Config Res σ M} :
    Run S s (h ++ [e]) c' ↔ ∃ c, Run S s h c ∧ Step S c e c' := by
  constructor
  · generalize he : h ++ [e] = h'
    rintro (_ | ⟨hr, hs⟩)
    · simp at he
    · obtain ⟨rfl, rfl⟩ := List.append_singleton_inj.mp he
      exact ⟨_, hr, hs⟩
  · rintro ⟨c, hr, hs⟩
    exact .snoc hr hs

/-- Where an answer decides what an operation does, a history leads to one configuration. -/
lemma Run.config_unique {c' : Config Res σ M}
    (hexec : ∀ o w w' s, (S.exec o w s).1 = (S.exec o w' s).1 → (S.exec o w s).2 = (S.exec o w' s).2)
    (hr : Run S s h c) (hr' : Run S s h c') : c = c' := by
  induction hr generalizing c' with
  | nil => exact (run_nil_iff.mp hr').symm
  | @snoc h c c₁ e hr hs ih =>
    obtain ⟨c₂, hr₂, hs'⟩ := run_snoc_iff.mp hr'
    obtain rfl := ih hr₂
    cases hs with
    | recv m =>
      cases hs'
      rfl
    | env e =>
      cases hs'
      rfl
    | act i m o k w hi =>
      generalize hev : Event.act i ⟨o, (S.exec o w c.shared).1⟩ c.shared = ev at hs'
      cases hs' with
      | recv m => cases hev
      | env e => cases hev
      | act i' m' o' k' w' hi' =>
        simp only [Event.act.injEq, Act.mk.injEq, and_true] at hev
        obtain ⟨rfl, rfl, hres⟩ := hev
        rw [hi] at hi'
        cases hi'
        rw [hexec o w w' c.shared (eq_of_heq hres), eq_of_heq hres]

lemma Run.of_append (hr : Run S s (h₁ ++ h₂) c) : ∃ c₁, Run S s h₁ c₁ := by
  induction h₂ using List.reverseRecOn generalizing c with
  | nil => exact ⟨c, by simpa using hr⟩
  | append_singleton l e ih =>
    rw [← List.append_assoc, run_snoc_iff] at hr
    obtain ⟨c', hr', _⟩ := hr
    exact ih hr'

/-- Every entry of a history is a step from a configuration reached before it. -/
lemma Run.split {e : Event Res σ M E} (hr : Run S s (h₁ ++ e :: h₂) c) :
    ∃ c₁ c₂, Run S s h₁ c₁ ∧ Step S c₁ e c₂ ∧ Run S s (h₁ ++ [e]) c₂ := by
  rw [List.append_cons] at hr
  obtain ⟨c₂, hr₂⟩ := hr.of_append
  obtain ⟨c₁, hr₁, hs⟩ := run_snoc_iff.mp hr₂
  exact ⟨c₁, c₂, hr₁, hs, hr₂⟩

lemma Run.recv_mem {i : ℕ} {t : Task Res M} (hr : Run S s h c) (ht : c.tasks[i]? = some t) :
    .recv i t.msg ∈ h := by
  induction hr generalizing t with
  | nil => simp at ht
  | @snoc h c c' e hr hs ih =>
    cases hs with
    | recv m =>
      rw [List.getElem?_append] at ht
      split at ht
      · exact List.mem_append_left _ (ih ht)
      · rename_i hlt
        obtain ⟨hi, rfl⟩ := List.getElem?_eq_some_iff.mp ht
        simp only [List.length_singleton] at hi
        have hi' : i = c.tasks.length := by omega
        subst hi'
        simp
    | act j m o k w hj =>
      rw [List.getElem?_set] at ht
      split at ht
      · rename_i hij
        split at ht
        · simp only [Option.some.injEq] at ht
          subst hij
          subst ht
          have hm := ih hj
          exact List.mem_append_left _ hm
        · cases ht
      · exact List.mem_append_left _ (ih ht)
    | env e => exact List.mem_append_left _ (ih ht)

lemma Run.exists_task {i : ℕ} {m : M} (hr : Run S s h c) (hm : .recv i m ∈ h) :
    ∃ p, c.tasks[i]? = some ⟨m, p⟩ := by
  induction hr with
  | nil => simp at hm
  | snoc hr hs ih =>
    cases hs with
    | recv m' =>
      rw [List.mem_append, List.mem_singleton] at hm
      rcases hm with hm | hm
      · obtain ⟨p, hp⟩ := ih hm
        exact ⟨p, by rw [List.getElem?_append_left (List.getElem?_eq_some_iff.mp hp).1, hp]⟩
      · cases hm
        exact ⟨S.handler m, by simp⟩
    | act j m' o k w hj =>
      obtain ⟨p, hp⟩ := ih (by simpa using hm)
      by_cases hij : j = i
      · subst hij
        rw [hp] at hj
        cases hj
        exact ⟨_, by rw [List.getElem?_set_self (List.getElem?_eq_some_iff.mp hp).1]⟩
      · exact ⟨p, by rw [List.getElem?_set_ne hij, hp]⟩
    | env e => exact ih (by simpa using hm)

lemma Run.recv_unique {i : ℕ} {m m' : M} (hr : Run S s h c) (hm : .recv i m ∈ h)
    (hm' : .recv i m' ∈ h) : m = m' := by
  obtain ⟨p, hp⟩ := hr.exists_task hm
  obtain ⟨p', hp'⟩ := hr.exists_task hm'
  rw [hp] at hp'
  cases hp'
  rfl

/-- A task is where its own acts have led it. -/
theorem Run.path {i : ℕ} {t : Task Res M} (hr : Run S s h c) (ht : c.tasks[i]? = some t) :
    Path (S.handler t.msg) (acts i h) t.prog := by
  induction hr generalizing t with
  | nil => simp at ht
  | @snoc h c c' e hr hs ih =>
    cases hs with
    | recv m =>
      rw [acts_append, acts_recv, acts_nil, List.append_nil]
      rw [List.getElem?_append] at ht
      split at ht
      · exact ih ht
      · rename_i hlt
        obtain ⟨hi, rfl⟩ := List.getElem?_eq_some_iff.mp ht
        have hno : acts i h = [] := by
          rw [List.eq_nil_iff_forall_not_mem]
          intro a ha
          obtain ⟨h₁, pre, h₂, rfl⟩ := exists_split_of_mem_acts ha
          obtain ⟨c₁, c₂, hr₁, hs₁, hr₂⟩ := hr.split
          cases hs₁ with
          | act _ m' o k w hj =>
            obtain ⟨p, hp⟩ := hr.exists_task (List.mem_append_left _ (hr₁.recv_mem hj))
            exact hlt (List.getElem?_eq_some_iff.mp hp).1
        rw [hno]
        simp only [List.getElem_singleton]
        exact .nil _
    | act j m o k w hj =>
      rw [acts_append]
      rw [List.getElem?_set] at ht
      split at ht
      · rename_i hij
        split at ht
        · simp only [Option.some.injEq] at ht
          subst hij
          subst ht
          rw [acts_act_self, acts_nil]
          exact (ih hj).snoc _
        · cases ht
      · rename_i hij
        rw [acts_act_of_ne hij, acts_nil, List.append_nil]
        exact ih ht
    | env e =>
      rw [acts_append, acts_env, acts_nil, List.append_nil]
      exact ih ht

/-- The acts of a task form a path through the handler of its message. -/
lemma Run.handler_path {i : ℕ} {m : M} (hr : Run S s h c) (hm : .recv i m ∈ h) :
    ∃ p, c.tasks[i]? = some ⟨m, p⟩ ∧ Path (S.handler m) (acts i h) p := by
  obtain ⟨p, hp⟩ := hr.exists_task hm
  exact ⟨p, hp, hr.path hp⟩

lemma Run.act_lt {i : ℕ} {a : Act Res} {pre : σ} (hr : Run S s h c) (ha : .act i a pre ∈ h) :
    i < c.tasks.length := by
  obtain ⟨h₁, h₂, rfl⟩ := List.append_of_mem ha
  obtain ⟨c₁, c₂, hr₁, hs, _⟩ := hr.split
  cases hs with
  | act _ m o k w hj =>
    obtain ⟨p, hp⟩ := hr.exists_task (List.mem_append_left _ (hr₁.recv_mem hj))
    exact (List.getElem?_eq_some_iff.mp hp).1

lemma Run.receptions_fst (hr : Run S s h c) :
    (receptions h).map Prod.fst = List.range c.tasks.length := by
  induction hr with
  | nil => rfl
  | @snoc h c c' e hr hs ih =>
    rw [receptions_append, List.map_append, ih]
    cases hs with
    | recv m => simp [receptions, List.range_succ]
    | act i m o k w hi => simp [receptions]
    | env e => simp [receptions]

/-! ### Counting acts -/

/-- The number of acts whose operation satisfies `P`. -/
def tally (P : Op → Bool) (h : List (Event Res σ M E)) : ℕ :=
  h.countP (fun e => match e with
    | .act _ a _ => P a.op
    | _ => false)

lemma tally_act (P : Op → Bool) (i : ℕ) (a : Act Res) (pre : σ) (h : List (Event Res σ M E)) :
    tally P (.act i a pre :: h) = tally P h + if P a.op then 1 else 0 := by
  simp [tally, List.countP_cons]

lemma tally_append (P : Op → Bool) (h h' : List (Event Res σ M E)) :
    tally P (h ++ h') = tally P h + tally P h' := List.countP_append

lemma tally_eq_sum (P : Op → Bool) (n : ℕ) (h : List (Event Res σ M E))
    (hn : ∀ i a pre, .act i a pre ∈ h → i < n) :
    tally P h = ∑ i ∈ Finset.range n, (acts i h).countP (fun a => P a.op) := by
  induction h with
  | nil => simp [tally]
  | cons e h ih =>
    have ih' := ih fun i a pre ha => hn i a pre (List.mem_cons_of_mem _ ha)
    cases e with
    | recv i m => simpa [tally] using ih'
    | env e pre => simpa [tally] using ih'
    | act j a pre =>
      have hj : j ∈ Finset.range n := Finset.mem_range.mpr (hn j a pre (by simp))
      have hcount : ∀ i ∈ Finset.range n, (acts i (.act j a pre :: h)).countP (fun a => P a.op) =
          (acts i h).countP (fun a => P a.op) + if j = i then (if P a.op then 1 else 0) else 0 := by
        intro i _
        by_cases hij : j = i
        · subst hij
          simp [List.countP_cons]
        · simp [acts_act_of_ne hij, hij]
      rw [Finset.sum_congr rfl hcount, Finset.sum_add_distrib, Finset.sum_ite_eq, if_pos hj, ← ih',
        tally_act]

lemma Run.tally_eq_sum (P : Op → Bool) (hr : Run S s h c) :
    tally P h = ∑ i ∈ Finset.range c.tasks.length, (acts i h).countP (fun a => P a.op) :=
  AtomicTasks.tally_eq_sum P _ h fun _ _ _ => hr.act_lt

/-! ### From handlers to histories -/

section Guarded

variable {I : M → List (Act Res) → Op → Prop} {Q : M → Unit → List (Act Res) → Prop}

/-- What guards the operations of every handler holds wherever a history performs one. -/
theorem Run.act_guarded {i : ℕ} {a : Act Res} {pre : σ}
    (hI : ∀ m, Guarded (I m) (Q m) (S.handler m) [])
    (hr : Run S s (h₁ ++ .act i a pre :: h₂) c) :
    ∃ m, .recv i m ∈ h₁ ∧ I m (acts i h₁) a.op := by
  obtain ⟨c₁, c₂, hr₁, hs, _⟩ := hr.split
  cases hs with
  | act _ m o k w hj => exact ⟨m, hr₁.recv_mem hj, ((hI m).path (hr₁.path hj)).1⟩

/-- What holds when a handler returns holds of every finished task. -/
theorem Run.finished_guarded {i : ℕ} {m : M} (hI : ∀ m, Guarded (I m) (Q m) (S.handler m) [])
    (hr : Run S s h c) (ht : c.tasks[i]? = some ⟨m, .done ()⟩) : Q m () (acts i h) :=
  (hI m).path (hr.path ht)

end Guarded

/-! ### Handling a message alone -/

/-- The entries of a program that task `i` executes without interruption. -/
def trail (S : System Res σ M E Ω) (i : ℕ) : Prog Res Unit → (ℕ → Ω) → σ → List (Event Res σ M E)
  | .done _, _, _ => []
  | .act o k, ω, s =>
    .act i ⟨o, (S.exec o (ω 0) s).1⟩ s ::
      trail S i (k (S.exec o (ω 0) s).1) (fun n => ω (n + 1)) (S.exec o (ω 0) s).2

@[simp] lemma acts_trail_self (i : ℕ) (p : Prog Res Unit) (ω : ℕ → Ω) (s : σ) :
    acts i (trail S i p ω s) = (run S.exec p ω s).acts := by
  induction p generalizing ω s with
  | done a => rfl
  | act o k ih => rw [trail, acts_act_self, ih, run_act]

lemma acts_trail_of_ne {i j : ℕ} (hij : j ≠ i) (p : Prog Res Unit) (ω : ℕ → Ω) (s : σ) :
    acts i (trail S j p ω s) = [] := by
  induction p generalizing ω s with
  | done a => rfl
  | act o k ih => rw [trail, acts_act_of_ne hij, ih]

lemma recv_notMem_trail (j : ℕ) (p : Prog Res Unit) (ω : ℕ → Ω) (s : σ) (i : ℕ) (m : M) :
    .recv i m ∉ trail S j p ω s := by
  induction p generalizing ω s with
  | done a => simp [trail]
  | act o k ih => simpa [trail] using ih _ _ _

/-- A task that is not interrupted ends as the sequential execution of its program does. -/
theorem Run.solo {i : ℕ} {m : M} {p : Prog Res Unit} (hr : Run S s h c)
    (hi : c.tasks[i]? = some ⟨m, p⟩) (ω : ℕ → Ω) :
    Run S s (h ++ trail S i p ω c.shared)
      ⟨(run S.exec p ω c.shared).state, c.tasks.set i ⟨m, .done ()⟩⟩ := by
  induction p generalizing h c ω with
  | done a =>
    have hc : c.tasks.set i ⟨m, .done ()⟩ = c.tasks := by
      obtain ⟨hlt, hget⟩ := List.getElem?_eq_some_iff.mp hi
      rw [← hget, List.set_getElem_self]
    simpa [trail, hc] using hr
  | act o k ih =>
    have hlt : i < c.tasks.length := (List.getElem?_eq_some_iff.mp hi).1
    have hstep := hr.snoc (.act c i m o k (ω 0) hi)
    have hnext : (c.tasks.set i ⟨m, k (S.exec o (ω 0) c.shared).1⟩)[i]? =
        some ⟨m, k (S.exec o (ω 0) c.shared).1⟩ := by simp [hlt]
    have hrest := ih _ hstep hnext (fun n => ω (n + 1))
    simpa [trail, run_act] using hrest

/-- Handling a message alone is a run: sequential executions are interleavings. -/
theorem Run.handle (hr : Run S s h c) (m : M) (ω : ℕ → Ω) :
    Run S s (h ++ .recv c.tasks.length m :: trail S c.tasks.length (S.handler m) ω c.shared)
      ⟨(run S.exec (S.handler m) ω c.shared).state, c.tasks ++ [⟨m, .done ()⟩]⟩ := by
  have hnew : (c.tasks ++ [⟨m, S.handler m⟩])[c.tasks.length]? = some ⟨m, S.handler m⟩ := by simp
  have hsolo := (hr.snoc (.recv c m)).solo hnew ω
  simpa using hsolo

/-! ### Replaying schedules -/

/-- What may happen next: a message arrives, a task performs its next operation with the
environment deciding `w`, or the environment moves. -/
inductive Choice (M E Ω : Type)
  | recv (m : M)
  | step (i : ℕ) (w : Ω)
  | env (e : E)

def next (S : System Res σ M E Ω) (c : Config Res σ M) :
    Choice M E Ω → Option (Event Res σ M E × Config Res σ M)
  | .recv m => some (.recv c.tasks.length m, ⟨c.shared, c.tasks ++ [⟨m, S.handler m⟩]⟩)
  | .step i w =>
    match c.tasks[i]? with
    | some ⟨m, .act o k⟩ =>
      let x := S.exec o w c.shared
      some (.act i ⟨o, x.1⟩ c.shared, ⟨x.2, c.tasks.set i ⟨m, k x.1⟩⟩)
    | _ => none
  | .env e => some (.env e c.shared, ⟨S.env e c.shared, c.tasks⟩)

/-- Follow a schedule; what cannot happen is passed over. -/
def replay (S : System Res σ M E Ω) : List (Choice M E Ω) →
    List (Event Res σ M E) × Config Res σ M → List (Event Res σ M E) × Config Res σ M
  | [], x => x
  | y :: ys, x =>
    match next S x.2 y with
    | some (e, c') => replay S ys (x.1 ++ [e], c')
    | none => replay S ys x

lemma next_step {x : Choice M E Ω} {e : Event Res σ M E} {c' : Config Res σ M}
    (hx : next S c x = some (e, c')) : Step S c e c' := by
  cases x with
  | recv m =>
    cases hx
    exact .recv c m
  | step i w =>
    simp only [next] at hx
    split at hx
    · rename_i m o k hi
      cases hx
      exact .act c i m o k w hi
    · cases hx
  | env e =>
    cases hx
    exact .env c e

/-- A replayed schedule is a run. -/
theorem replay_run (ys : List (Choice M E Ω)) {x : List (Event Res σ M E) × Config Res σ M}
    (hr : Run S s x.1 x.2) : Run S s (replay S ys x).1 (replay S ys x).2 := by
  induction ys generalizing x with
  | nil => exact hr
  | cons y ys ih =>
    simp only [replay]
    split
    · rename_i e c' hn
      exact ih (.snoc hr (next_step hn))
    · exact ih hr

end AtomicTasks
