import Mathlib.Data.List.Basic
import Mathlib.Control.Basic

/-!
# Programs over atomic operations

A `Prog` is a sequential program that reaches shared state only through atomic
operations, one at a time: each operation names what is asked and the rest of the
program depends on the answer. This file gives the monad, the paths a program can take,
a logic for what holds of the acts behind a path (`Guarded`), and uninterrupted execution
against a state (`run`).
-/

namespace AtomicTasks

/-- A program is finished, or waits for the answer of its next operation. -/
inductive Prog {Op : Type} (Res : Op → Type) (α : Type) : Type
  | done (a : α) : Prog Res α
  | act (o : Op) (k : Res o → Prog Res α) : Prog Res α

/-- An operation together with the answer it got. -/
structure Act {Op : Type} (Res : Op → Type) where
  op : Op
  res : Res op

variable {Op : Type} {Res : Op → Type} {α β : Type}

instance [DecidableEq Op] [∀ o, DecidableEq (Res o)] : DecidableEq (Act Res)
  | ⟨o, r⟩, ⟨o', r'⟩ =>
    if h : o = o' then
      match o', h, r' with
      | _, rfl, r' => decidable_of_iff (r = r') (by simp)
    else isFalse (fun he => h (congrArg Act.op he))

namespace Prog

def bind : Prog Res α → (α → Prog Res β) → Prog Res β
  | .done a, f => f a
  | .act o k, f => .act o (fun r => bind (k r) f)

instance : Monad (Prog Res) where
  pure := .done
  bind := bind

/-- Perform one operation and return its answer. -/
def call (o : Op) : Prog Res (Res o) := .act o .done

@[simp] lemma pure_eq (a : α) : (pure a : Prog Res α) = .done a := rfl

@[simp] lemma done_bind (a : α) (f : α → Prog Res β) : (Prog.done a >>= f) = f a := rfl

@[simp] lemma act_bind (o : Op) (k : Res o → Prog Res α) (f : α → Prog Res β) :
    (Prog.act o k >>= f) = .act o (fun r => k r >>= f) := rfl

@[simp] lemma call_bind (o : Op) (f : Res o → Prog Res β) :
    (call o >>= f) = .act o f := rfl

lemma bind_done (p : Prog Res α) : p >>= Prog.done = p := by
  induction p with
  | done a => rfl
  | act o k ih =>
    rw [act_bind]
    congr 1
    funext r
    exact ih r

instance : LawfulMonad (Prog Res) :=
  LawfulMonad.mk' _ (fun p => bind_done p) (fun _ _ => rfl) (fun p f g => by
    induction p with
    | done a => rfl
    | act o k ih =>
      simp only [act_bind]
      congr 1
      funext r
      exact ih r)

end Prog

open Prog

/-! ### Paths -/

/-- `Path p l q`: the acts `l` lead from the program `p` to the program `q`. -/
inductive Path : Prog Res α → List (Act Res) → Prog Res α → Prop
  | nil (p : Prog Res α) : Path p [] p
  | cons {o : Op} {k : Res o → Prog Res α} {l : List (Act Res)} {q : Prog Res α} (r : Res o)
      (h : Path (k r) l q) : Path (.act o k) (⟨o, r⟩ :: l) q

lemma Path.append {p q q' : Prog Res α} {l l' : List (Act Res)} (h : Path p l q)
    (h' : Path q l' q') : Path p (l ++ l') q' := by
  induction h with
  | nil p => exact h'
  | cons r _ ih => exact .cons r (ih h')

lemma Path.snoc {p : Prog Res α} {l : List (Act Res)} {o : Op} {k : Res o → Prog Res α}
    (h : Path p l (.act o k)) (r : Res o) : Path p (l ++ [⟨o, r⟩]) (k r) :=
  h.append (.cons r (.nil _))

lemma path_nil_iff {p q : Prog Res α} : Path p [] q ↔ p = q := by
  constructor
  · rintro ⟨⟩
    rfl
  · rintro rfl
    exact .nil p

@[simp] lemma path_done_iff {a : α} {l : List (Act Res)} {q : Prog Res α} :
    Path (.done a) l q ↔ l = [] ∧ q = .done a := by
  constructor
  · rintro ⟨⟩
    exact ⟨rfl, rfl⟩
  · rintro ⟨rfl, rfl⟩
    exact .nil _

lemma path_append_iff {p q : Prog Res α} {l l' : List (Act Res)} :
    Path p (l ++ l') q ↔ ∃ p', Path p l p' ∧ Path p' l' q := by
  constructor
  · intro h
    induction l generalizing p with
    | nil => exact ⟨p, .nil p, h⟩
    | cons a l ih =>
      cases h with
      | cons r h =>
        obtain ⟨p', h1, h2⟩ := ih h
        exact ⟨p', .cons r h1, h2⟩
  · rintro ⟨p', h1, h2⟩
    exact h1.append h2

/-- Acts lead a program to one place only. -/
lemma Path.functional {p q q' : Prog Res α} {l : List (Act Res)} (h : Path p l q)
    (h' : Path p l q') : q = q' := by
  induction h with
  | nil p => exact path_nil_iff.mp h'
  | cons r _ ih =>
    cases h' with
    | cons _ h' => exact ih h'

lemma Path.done_unique {p : Prog Res α} {l₁ l₂ x₁ x₂ : List (Act Res)} {a b : α}
    (h₁ : Path p l₁ (.done a)) (h₂ : Path p l₂ (.done b)) (hl : l₁ ++ x₁ = l₂ ++ x₂) :
    l₁ = l₂ ∧ a = b := by
  generalize hd : Prog.done a = e at h₁
  induction h₁ generalizing l₂ with
  | nil p =>
    subst hd
    obtain ⟨rfl, hb⟩ := path_done_iff.mp h₂
    exact ⟨rfl, by simpa using hb.symm⟩
  | cons r _ ih =>
    cases h₂ with
    | cons r' h₂ =>
      rw [List.cons_append, List.cons_append, List.cons.injEq] at hl
      obtain ⟨hact, hl⟩ := hl
      cases hact
      obtain ⟨rfl, hab⟩ := ih h₂ hl hd
      exact ⟨rfl, hab⟩

/-- A path through a sequence is still in its first part, or has passed through its value. -/
lemma path_bind_cases {p : Prog Res α} {f : α → Prog Res β} {l : List (Act Res)}
    {q : Prog Res β} (h : Path (p >>= f) l q) :
    (∃ p', Path p l p' ∧ q = p' >>= f) ∨
      ∃ a l₁ l₂, l = l₁ ++ l₂ ∧ Path p l₁ (.done a) ∧ Path (f a) l₂ q := by
  induction p generalizing l with
  | done a => exact .inr ⟨a, [], l, rfl, .nil _, h⟩
  | act o k ih =>
    rw [act_bind] at h
    cases h with
    | nil => exact .inl ⟨.act o k, .nil _, rfl⟩
    | cons r h =>
      rcases ih r h with ⟨p', hp, rfl⟩ | ⟨a, l₁, l₂, rfl, hp, hf⟩
      · exact .inl ⟨p', .cons r hp, rfl⟩
      · exact .inr ⟨a, _, l₂, rfl, .cons r hp, hf⟩

/-- A complete path through a sequence consists of complete paths through its parts. -/
lemma path_bind_done {p : Prog Res α} {f : α → Prog Res β} {l : List (Act Res)} {b : β}
    (h : Path (p >>= f) l (.done b)) :
    ∃ a l₁ l₂, l = l₁ ++ l₂ ∧ Path p l₁ (.done a) ∧ Path (f a) l₂ (.done b) := by
  rcases path_bind_cases h with ⟨p', hp, hq⟩ | hparts
  · cases p' with
    | done a =>
      refine ⟨a, l, [], by simp, hp, ?_⟩
      rw [done_bind] at hq
      exact path_nil_iff.mpr hq.symm
    | act o k => cases hq
  · exact hparts

/-- Behind a complete path through the first part, a path through a sequence goes on in the
second part. -/
lemma Path.bind_rest {p : Prog Res α} {f : α → Prog Res β} {l l' : List (Act Res)} {a : α}
    {q : Prog Res β} (hp : Path p l (.done a)) (h : Path (p >>= f) (l ++ l') q) :
    Path (f a) l' q := by
  generalize hd : Prog.done a = e at hp
  induction hp with
  | nil p =>
    subst hd
    exact h
  | cons r _ ih =>
    cases h with
    | cons _ h => exact ih h hd

/-! ### What holds along every path -/

/-- Started behind the acts `l`, the program performs an operation only where the acts so
far allow it, and returns only a value that fits the acts so far. -/
def Guarded (I : List (Act Res) → Op → Prop) (Q : α → List (Act Res) → Prop) :
    Prog Res α → List (Act Res) → Prop
  | .done a, l => Q a l
  | .act o k, l => I l o ∧ ∀ r, Guarded I Q (k r) (l ++ [⟨o, r⟩])

variable {I J : List (Act Res) → Op → Prop} {Q : α → List (Act Res) → Prop}

@[simp] lemma guarded_done {a : α} {l : List (Act Res)} :
    Guarded I Q (.done a) l ↔ Q a l := Iff.rfl

@[simp] lemma guarded_act {o : Op} {k : Res o → Prog Res α} {l : List (Act Res)} :
    Guarded I Q (.act o k) l ↔ I l o ∧ ∀ r, Guarded I Q (k r) (l ++ [⟨o, r⟩]) := Iff.rfl

@[simp] lemma guarded_call {o : Op} {Q : Res o → List (Act Res) → Prop} {l : List (Act Res)} :
    Guarded I Q (Prog.call o) l ↔ I l o ∧ ∀ r, Q r (l ++ [⟨o, r⟩]) := Iff.rfl

lemma guarded_bind {p : Prog Res α} {f : α → Prog Res β} {R : β → List (Act Res) → Prop}
    {l : List (Act Res)} :
    Guarded I R (p >>= f) l ↔ Guarded I (fun a l' => Guarded I R (f a) l') p l := by
  induction p generalizing l with
  | done a => rfl
  | act o k ih => simp only [act_bind, guarded_act, ih]

lemma Guarded.mono {p : Prog Res α} {Q' : α → List (Act Res) → Prop} {l : List (Act Res)}
    (h : Guarded I Q p l) (hI : ∀ l o, I l o → J l o) (hQ : ∀ a l, Q a l → Q' a l) :
    Guarded J Q' p l := by
  induction p generalizing l with
  | done a => exact hQ a l h
  | act o k ih => exact ⟨hI l o h.1, fun r => ih r (h.2 r)⟩

lemma Guarded.and {p : Prog Res α} {R : α → List (Act Res) → Prop} {l : List (Act Res)}
    (h : Guarded I Q p l) (h' : Guarded J R p l) :
    Guarded (fun l o => I l o ∧ J l o) (fun a l => Q a l ∧ R a l) p l := by
  induction p generalizing l with
  | done a => exact ⟨h, h'⟩
  | act o k ih => exact ⟨⟨h.1, h'.1⟩, fun r => ih r (h.2 r) (h'.2 r)⟩

lemma Guarded.path {p q : Prog Res α} {l l' : List (Act Res)} (h : Guarded I Q p l)
    (hp : Path p l' q) : Guarded I Q q (l ++ l') := by
  induction hp generalizing l with
  | nil p => simpa using h
  | cons r _ ih => simpa using ih (h.2 r)

/-- The guard of an act holds of the acts before it. -/
lemma Guarded.at_act {p q : Prog Res α} {l l₁ l₂ : List (Act Res)} {a : Act Res}
    (h : Guarded I Q p l) (hp : Path p (l₁ ++ a :: l₂) q) : I (l ++ l₁) a.op := by
  obtain ⟨p', h₁, h₂⟩ := path_append_iff.mp hp
  cases h₂ with
  | cons r _ => exact (h.path h₁).1

/-- Operations that rule out their like before them are performed once. -/
lemma Guarded.once {p q : Prog Res α} {l : List (Act Res)} {a b : Act Res} (K : Op → Prop)
    (h : Guarded I Q p []) (hp : Path p l q) (hI : ∀ l o, I l o → K o → ∀ x ∈ l, ¬K x.op)
    (ha : a ∈ l) (hb : b ∈ l) (hKa : K a.op) (hKb : K b.op) : a = b := by
  obtain ⟨l₁, l₂, rfl⟩ := List.append_of_mem ha
  rw [List.mem_append, List.mem_cons] at hb
  rcases hb with hb | rfl | hb
  · exact absurd hKb (hI _ _ (h.at_act hp) hKa b (by simpa using hb))
  · rfl
  · obtain ⟨l₃, l₄, rfl⟩ := List.append_of_mem hb
    have hp' : Path p ((l₁ ++ a :: l₃) ++ b :: l₄) q := by simpa using hp
    exact absurd hKa (hI _ _ (h.at_act hp') hKb a (by simp))

/-- Every operation the program can perform satisfies `P`. -/
def Only (P : Op → Prop) : Prog Res α → Prop
  | .done _ => True
  | .act o k => P o ∧ ∀ r, Only P (k r)

@[simp] lemma only_done {P : Op → Prop} {a : α} : Only P (.done a : Prog Res α) ↔ True := Iff.rfl

@[simp] lemma only_act {P : Op → Prop} {o : Op} {k : Res o → Prog Res α} :
    Only P (.act o k) ↔ P o ∧ ∀ r, Only P (k r) := Iff.rfl

@[simp] lemma only_call {P : Op → Prop} {o : Op} :
    Only P (Prog.call o : Prog Res (Res o)) ↔ P o := by
  simp [Prog.call]

lemma only_bind {P : Op → Prop} {p : Prog Res α} {f : α → Prog Res β} (hp : Only P p)
    (hf : ∀ a, Only P (f a)) : Only P (p >>= f) := by
  induction p with
  | done a => exact hf a
  | act o k ih => exact ⟨hp.1, fun r => ih r (hp.2 r)⟩

lemma Only.mono {P P' : Op → Prop} {p : Prog Res α} (h : Only P p) (hP : ∀ o, P o → P' o) :
    Only P' p := by
  induction p with
  | done a => trivial
  | act o k ih => exact ⟨hP o h.1, fun r => ih r (h.2 r)⟩

lemma Path.only {P : Op → Prop} {p q : Prog Res α} {l : List (Act Res)} (h : Path p l q)
    (hp : Only P p) : ∀ a ∈ l, P a.op := by
  induction h with
  | nil => simp
  | cons r _ ih =>
    intro a ha
    rcases List.mem_cons.mp ha with rfl | ha
    · exact hp.1
    · exact ih (hp.2 r) a ha

lemma Path.only_next {P : Op → Prop} {p : Prog Res α} {l : List (Act Res)} {o : Op}
    {k : Res o → Prog Res α} (h : Path p l (.act o k)) (hp : Only P p) : P o := by
  generalize hq : Prog.act o k = q at h
  induction h with
  | nil p =>
    subst hq
    exact hp.1
  | cons r _ ih => exact ih (hp.2 r) hq

/-- Where a sequence is about to perform an operation that its first part never performs, the
first part has been passed. -/
lemma path_bind_act {P : Op → Prop} {p : Prog Res α} {f : α → Prog Res β} {l : List (Act Res)}
    {o : Op} {k : Res o → Prog Res β} (h : Path (p >>= f) l (.act o k)) (hp : Only P p)
    (ho : ¬P o) : ∃ a l₁ l₂, l = l₁ ++ l₂ ∧ Path p l₁ (.done a) ∧ Path (f a) l₂ (.act o k) := by
  rcases path_bind_cases h with ⟨p', hp', hq⟩ | hparts
  · cases p' with
    | done a =>
      refine ⟨a, l, [], by simp, hp', ?_⟩
      rw [done_bind] at hq
      exact path_nil_iff.mpr hq.symm
    | act o' k' =>
      cases hq
      exact absurd (hp'.only_next hp) ho
  · exact hparts

/-- Where a sequence is about to perform an operation that its second part never performs, the
first part is. -/
lemma path_bind_act_left {P : Op → Prop} {p : Prog Res α} {f : α → Prog Res β}
    {l : List (Act Res)} {o : Op} {k : Res o → Prog Res β} (h : Path (p >>= f) l (.act o k))
    (hf : ∀ a, Only P (f a)) (ho : ¬P o) : ∃ k', Path p l (.act o k') := by
  rcases path_bind_cases h with ⟨p', hp', hq⟩ | ⟨a, l₁, l₂, rfl, _, hrest⟩
  · cases p' with
    | done a =>
      rw [done_bind] at hq
      have hnext := hf a
      rw [← hq] at hnext
      exact absurd hnext.1 ho
    | act o' k' =>
      cases hq
      exact ⟨k', hp'⟩
  · exact absurd (hrest.only_next (hf a)) ho

/-- Frame rule: a part of the program that only performs operations in `P` keeps any
invariant of the acts that such operations keep. -/
lemma guarded_of_only {P : Op → Prop} {p : Prog Res α} (hp : Only P p)
    (K : List (Act Res) → Prop) {l : List (Act Res)} (hl : K l)
    (hstep : ∀ l o, K l → P o → I l o ∧ ∀ r, K (l ++ [⟨o, r⟩]))
    (hQ : ∀ a l, K l → Q a l) : Guarded I Q p l := by
  induction p generalizing l with
  | done a => exact hQ a l hl
  | act o k ih =>
    obtain ⟨hI, hK⟩ := hstep l o hl hp.1
    exact ⟨hI, fun r => ih r (hp.2 r) (hK r)⟩

/-- Behind a part of the program stands a complete path through it. -/
lemma Only.guarded_path {P : Op → Prop} {p : Prog Res α} (hp : Only P p)
    (hI : ∀ l o, P o → I l o) (l : List (Act Res)) :
    Guarded I (fun a l' => ∃ x, l' = l ++ x ∧ Path p x (.done a)) p l := by
  induction p generalizing l with
  | done a => exact ⟨[], by simp, .nil _⟩
  | act o k ih =>
    refine ⟨hI l o hp.1, fun r => (ih r (hp.2 r) (l ++ [⟨o, r⟩])).mono (fun _ _ h => h) ?_⟩
    rintro a _ ⟨x, rfl, hx⟩
    exact ⟨⟨o, r⟩ :: x, by simp, .cons r hx⟩

/-! ### Uninterrupted execution -/

section Execution

variable {σ Ω : Type}

/-- What an uninterrupted execution leaves: the value, the state and the acts. -/
structure Outcome {Op : Type} (Res : Op → Type) (σ α : Type) where
  value : α
  state : σ
  acts : List (Act Res)

variable (exec : (o : Op) → Ω → σ → Res o × σ)

/-- Execute the program alone. `ω n` is what the environment decides at its `n`th act. -/
def run : Prog Res α → (ℕ → Ω) → σ → Outcome Res σ α
  | .done a, _, s => ⟨a, s, []⟩
  | .act o k, ω, s =>
    let x := exec o (ω 0) s
    let y := run (k x.1) (fun n => ω (n + 1)) x.2
    ⟨y.value, y.state, ⟨o, x.1⟩ :: y.acts⟩

@[simp] lemma run_done (a : α) (ω : ℕ → Ω) (s : σ) :
    run exec (.done a : Prog Res α) ω s = ⟨a, s, []⟩ := rfl

lemma run_act (o : Op) (k : Res o → Prog Res α) (ω : ℕ → Ω) (s : σ) :
    run exec (.act o k) ω s =
      ⟨(run exec (k (exec o (ω 0) s).1) (fun n => ω (n + 1)) (exec o (ω 0) s).2).value,
        (run exec (k (exec o (ω 0) s).1) (fun n => ω (n + 1)) (exec o (ω 0) s).2).state,
        ⟨o, (exec o (ω 0) s).1⟩ ::
          (run exec (k (exec o (ω 0) s).1) (fun n => ω (n + 1)) (exec o (ω 0) s).2).acts⟩ := rfl

@[simp] lemma run_call (o : Op) (ω : ℕ → Ω) (s : σ) :
    run exec (Prog.call o : Prog Res (Res o)) ω s =
      ⟨(exec o (ω 0) s).1, (exec o (ω 0) s).2, [⟨o, (exec o (ω 0) s).1⟩]⟩ := rfl

lemma run_bind (p : Prog Res α) (f : α → Prog Res β) (ω : ℕ → Ω) (s : σ) :
    run exec (p >>= f) ω s =
      ⟨(run exec (f (run exec p ω s).value) (fun n => ω (n + (run exec p ω s).acts.length))
          (run exec p ω s).state).value,
        (run exec (f (run exec p ω s).value) (fun n => ω (n + (run exec p ω s).acts.length))
          (run exec p ω s).state).state,
        (run exec p ω s).acts ++
          (run exec (f (run exec p ω s).value) (fun n => ω (n + (run exec p ω s).acts.length))
            (run exec p ω s).state).acts⟩ := by
  induction p generalizing ω s with
  | done a => simp
  | act o k ih =>
    rw [act_bind, run_act, ih, run_act]
    simp only [List.length_cons, List.cons_append, Nat.add_assoc]

lemma run_path (p : Prog Res α) (ω : ℕ → Ω) (s : σ) :
    Path p (run exec p ω s).acts (.done (run exec p ω s).value) := by
  induction p generalizing ω s with
  | done a => exact .nil _
  | act o k ih => exact .cons _ (ih _ _ _)

/-- A state property that every operation in `P` keeps is kept by an execution that performs
only such operations. -/
lemma run_of_acts {P : Op → Prop} {p : Prog Res α} (K : σ → Prop)
    (hstep : ∀ o w s, P o → K s → K (exec o w s).2) (ω : ℕ → Ω) (s : σ)
    (hacts : ∀ a ∈ (run exec p ω s).acts, P a.op) (hs : K s) : K (run exec p ω s).state := by
  induction p generalizing ω s with
  | done a => exact hs
  | act o k ih =>
    rw [run_act] at hacts ⊢
    exact ih _ _ _ (fun a ha => hacts a (List.mem_cons_of_mem _ ha))
      (hstep o _ s (hacts ⟨o, _⟩ (List.mem_cons_self ..)) hs)

/-- A state property that every operation in `P` keeps is kept by a program of such
operations. -/
lemma run_of_only {P : Op → Prop} {p : Prog Res α} (hp : Only P p) (K : σ → Prop)
    (hstep : ∀ o w s, P o → K s → K (exec o w s).2) (ω : ℕ → Ω) (s : σ) (hs : K s) :
    K (run exec p ω s).state :=
  run_of_acts exec K hstep ω s ((run_path exec p ω s).only hp) hs

end Execution

end AtomicTasks
