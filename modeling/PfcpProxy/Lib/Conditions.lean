import Mathlib.Data.List.Basic
import Mathlib.Tactic.Lemma

/-!
# Conditions of computations

A computation with a state ends in a value or fails. `Ensures m Q E s` says what holds where `m`
ends when it starts in `s`: `Q` of the value and the state, or `E` of the failure and the state.
It is computed along binds, and carried through loops by an invariant (`Maintains`), which may be
that a part of the state is left alone (`Leaves`).
-/

namespace Conditions

variable {ε σ α β : Type}

def Ensures (m : EStateM ε σ α) (Q : α → σ → Prop) (E : ε → σ → Prop) (s : σ) : Prop :=
  match m s with
  | .ok a s' => Q a s'
  | .error e s' => E e s'

variable {m : EStateM ε σ α} {f : α → EStateM ε σ β} {Q Q' : α → σ → Prop} {E E' : ε → σ → Prop}
  {s s' : σ}

@[simp] lemma ensures_pure (a : α) : Ensures (pure a) Q E s ↔ Q a s := Iff.rfl

@[simp] lemma ensures_bind {R : β → σ → Prop} :
    Ensures (m >>= f) R E s ↔ Ensures m (fun a => Ensures (f a) R E) E s := by
  unfold Ensures
  simp only [bind, EStateM.bind]
  cases m s with
  | ok a s' => rfl
  | error e s' => rfl

@[simp] lemma ensures_get {R : σ → σ → Prop} : Ensures get R E s ↔ R s s := Iff.rfl

@[simp] lemma ensures_modify (g : σ → σ) {R : PUnit → σ → Prop} :
    Ensures (modify g) R E s ↔ R .unit (g s) := Iff.rfl

@[simp] lemma ensures_modifyGet (g : σ → α × σ) :
    Ensures (modifyGet g) Q E s ↔ Q (g s).1 (g s).2 := Iff.rfl

@[simp] lemma ensures_throw (e : ε) : Ensures (throw e) Q E s ↔ E e s := Iff.rfl

@[simp] lemma ensures_ite {c : Prop} [Decidable c] {m' : EStateM ε σ α} :
    Ensures (if c then m else m') Q E s ↔ if c then Ensures m Q E s else Ensures m' Q E s := by
  split
  · rfl
  · rfl

/-- Ignore failures of this kind. -/
def ignoring (p : ε → Bool) (m : EStateM ε σ Unit) : EStateM ε σ Unit := fun s =>
  match m s with
  | .ok _ s' => .ok () s'
  | .error e s' => if p e then .ok () s' else .error e s'

@[simp] lemma ensures_ignoring (p : ε → Bool) {m : EStateM ε σ Unit} {Q : Unit → σ → Prop} :
    Ensures (ignoring p m) Q E s ↔
      Ensures m Q (fun e s' => if p e then Q () s' else E e s') s := by
  unfold Ensures ignoring
  cases m s with
  | ok a s' => rfl
  | error e s' =>
    by_cases hp : p e = true
    · simp [hp]
    · simp [hp]

lemma Ensures.mono (h : Ensures m Q E s) (hQ : ∀ a s', Q a s' → Q' a s')
    (hE : ∀ e s', E e s' → E' e s') : Ensures m Q' E' s := by
  unfold Ensures at *
  split at h
  · exact hQ _ _ h
  · exact hE _ _ h

lemma Ensures.and (h : Ensures m Q E s) (h' : Ensures m Q' E' s) :
    Ensures m (fun a s' => Q a s' ∧ Q' a s') (fun e s' => E e s' ∧ E' e s') s := by
  unfold Ensures at *
  cases hm : m s with
  | ok a s' =>
    rw [hm] at h h'
    exact ⟨h, h'⟩
  | error e s' =>
    rw [hm] at h h'
    exact ⟨h, h'⟩

lemma Ensures.of_ok (h : Ensures m Q E s) {a : α} (hm : m s = .ok a s') : Q a s' := by
  unfold Ensures at h
  rwa [hm] at h

lemma Ensures.exists_ok (h : Ensures m Q (fun _ _ => False) s) :
    ∃ a s', m s = .ok a s' ∧ Q a s' := by
  unfold Ensures at h
  split at h
  next a s' hm => exact ⟨a, s', hm, h⟩
  next => exact h.elim

lemma ensures_iff_of_ok {a : α} (hm : m s = .ok a s') : Ensures m Q E s ↔ Q a s' := by
  rw [Ensures, hm]

lemma Ensures.of_error (h : Ensures m Q E s) {e : ε} (hm : m s = .error e s') : E e s' := by
  unfold Ensures at h
  rwa [hm] at h

lemma ensures_self : Ensures m (fun a s' => m s = .ok a s') (fun e s' => m s = .error e s') s := by
  unfold Ensures
  split
  · assumption
  · assumption

/-- A loop that computes a value for each element of a list, of which `view` shows what `h` says,
while `I` is kept. -/
lemma ensures_mapM {γ : Type} {g : α → EStateM ε σ β} (view : β → γ) (h : α → γ) {I : σ → Prop}
    (xs : List α) (hg : ∀ x ∈ xs, ∀ s, I s → Ensures (g x) (fun y s' => view y = h x ∧ I s') E s)
    (hs : I s) : Ensures (xs.mapM g) (fun ys s' => ys.map view = xs.map h ∧ I s') E s := by
  induction xs generalizing s with
  | nil => exact ⟨rfl, hs⟩
  | cons x xs ih =>
    rw [List.mapM_cons, ensures_bind]
    refine (hg x List.mem_cons_self s hs).mono (fun y s₁ h₁ => ?_) fun _ _ h => h
    rw [ensures_bind]
    have hrest := ih (fun z hz => hg z (List.mem_cons_of_mem _ hz)) h₁.2
    refine hrest.mono (fun ys s₂ h₂ => ?_) fun _ _ h => h
    rw [ensures_pure, List.map_cons, List.map_cons, h₁.1, h₂.1]
    exact ⟨rfl, h₂.2⟩

/-! ### Invariants -/

/-- Where `I` holds before, it holds after, also if the computation fails; the failures are in
`F`. -/
def Maintains (I : σ → Prop) (F : ε → Prop) (m : EStateM ε σ α) : Prop :=
  ∀ s, I s → Ensures m (fun _ => I) (fun e s' => F e ∧ I s') s

variable {I : σ → Prop} {F : ε → Prop}

lemma Maintains.bind (hm : Maintains I F m) (hf : ∀ a, Maintains I F (f a)) :
    Maintains I F (m >>= f) := by
  intro s hs
  rw [ensures_bind]
  exact (hm s hs).mono (fun a s' hs' => hf a s' hs') fun _ _ h => h

lemma maintains_pure (a : α) : Maintains I F (pure a : EStateM ε σ α) := fun _ hs => hs

lemma maintains_get : Maintains I F (get : EStateM ε σ σ) := fun _ hs => hs

lemma maintains_modify {g : σ → σ} (hg : ∀ s, I s → I (g s)) :
    Maintains I F (modify g : EStateM ε σ PUnit) := hg

lemma maintains_throw {e : ε} (he : F e) : Maintains I F (throw e : EStateM ε σ α) :=
  fun _ hs => ⟨he, hs⟩

lemma Maintains.ignoring (p : ε → Bool) {m : EStateM ε σ Unit} (hm : Maintains I F m) :
    Maintains I F (ignoring p m) := by
  intro s hs
  rw [ensures_ignoring]
  refine (hm s hs).mono (fun _ _ h => h) fun e s' h => ?_
  split
  · exact h.2
  · exact h

lemma maintains_forM {g : α → EStateM ε σ PUnit} (xs : List α)
    (hg : ∀ x ∈ xs, Maintains I F (g x)) : Maintains I F (xs.forM g) := by
  induction xs with
  | nil => exact maintains_pure _
  | cons x xs ih =>
    exact (hg x List.mem_cons_self).bind fun _ => ih fun y hy => hg y (List.mem_cons_of_mem _ hy)

lemma maintains_ite {c : Prop} [Decidable c] {m' : EStateM ε σ α} (hm : Maintains I F m)
    (hm' : Maintains I F m') : Maintains I F (if c then m else m') := by
  split
  · exact hm
  · exact hm'

/-- The computation leaves what `view` shows alone, and its failures are in `F`. -/
def Leaves {γ : Type} (view : σ → γ) (F : ε → Prop) (m : EStateM ε σ α) : Prop :=
  ∀ v, Maintains (fun s => view s = v) F m

section Leaves

variable {γ δ : Type} {view : σ → γ} {view' : σ → δ}

lemma Leaves.ensures (hm : Leaves view F m) (s : σ) :
    Ensures m (fun _ s' => view s' = view s) (fun e _ => F e) s :=
  (hm (view s) s rfl).mono (fun _ _ h => h) fun _ _ h => h.1

lemma Leaves.map (hm : Leaves view F m) (g : γ → δ) (hg : ∀ s, view' s = g (view s)) :
    Leaves view' F m := by
  intro v s hs
  have hview : ∀ s', view s' = view s → view' s' = v := by
    intro s' hs'
    rw [hg, hs', ← hg, hs]
  exact (hm (view s) s rfl).mono (fun _ s' h => hview s' h) fun _ s' h => ⟨h.1, hview s' h.2⟩

lemma Leaves.bind (hm : Leaves view F m) (hf : ∀ a, Leaves view F (f a)) :
    Leaves view F (m >>= f) := fun v => (hm v).bind fun a => hf a v

lemma leaves_pure (a : α) : Leaves view F (pure a : EStateM ε σ α) := fun _ => maintains_pure a

lemma leaves_get : Leaves view F (get : EStateM ε σ σ) := fun _ => maintains_get

lemma leaves_throw {e : ε} (he : F e) : Leaves view F (throw e : EStateM ε σ α) :=
  fun _ => maintains_throw he

lemma leaves_modify {g : σ → σ} (hg : ∀ s, view (g s) = view s) :
    Leaves view F (modify g : EStateM ε σ PUnit) := by
  intro v
  apply maintains_modify
  intro s hs
  rw [hg, hs]

lemma Leaves.ignoring (p : ε → Bool) {m : EStateM ε σ Unit} (hm : Leaves view F m) :
    Leaves view F (ignoring p m) := fun v => (hm v).ignoring p

lemma leaves_forM {g : β → EStateM ε σ PUnit} (xs : List β) (hg : ∀ x, Leaves view F (g x)) :
    Leaves view F (xs.forM g) := fun v => maintains_forM xs fun x _ => hg x v

lemma leaves_ite {c : Prop} [Decidable c] {m' : EStateM ε σ α} (hm : Leaves view F m)
    (hm' : Leaves view F m') : Leaves view F (if c then m else m') :=
  fun v => maintains_ite (hm v) (hm' v)

end Leaves

end Conditions
