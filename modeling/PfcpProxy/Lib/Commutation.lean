import PfcpProxy.Lib.Serialization

/-!
# Programs that commute

Two operations are independent if neither changes the answer of the other and the states they
leave do not depend on their order, up to an equivalence that answers respect. Programs over
independent operations commute, and a list of programs that commute in pairs can be executed
in any order.
-/

namespace AtomicTasks

variable {Op : Type} {Res : Op → Type} {σ Ω M T K V α β : Type}
  {exec : (o : Op) → Ω → σ → Res o × σ} {E : σ → σ → Prop}

/-- The operation answers alike in equivalent states, and keeps them equivalent. -/
def Respects (exec : (o : Op) → Ω → σ → Res o × σ) (E : σ → σ → Prop) (o : Op) : Prop :=
  ∀ w s s', E s s' → (exec o w s).1 = (exec o w s').1 ∧ E (exec o w s).2 (exec o w s').2

/-- Neither operation changes the answer of the other, nor does their order matter. -/
structure Independent (exec : (o : Op) → Ω → σ → Res o × σ) (E : σ → σ → Prop) (o o' : Op) :
    Prop where
  left : ∀ w w' s, (exec o w (exec o' w' s).2).1 = (exec o w s).1
  right : ∀ w w' s, (exec o' w' (exec o w s).2).1 = (exec o' w' s).1
  state : ∀ w w' s, E (exec o' w' (exec o w s).2).2 (exec o w (exec o' w' s).2).2

lemma Independent.symm (hE : Equivalence E) {o o' : Op} (h : Independent exec E o o') :
    Independent exec E o' o :=
  ⟨fun w w' s => h.right w' w s, fun w w' s => h.left w' w s, fun w w' s => hE.symm (h.state w' w s)⟩

/-! ### Two programs -/

/-- A program acts alike in equivalent states. -/
theorem run_congr {p : Prog Res α} (hp : Only (Respects exec E) p) (ω : ℕ → Ω) {s s' : σ}
    (h : E s s') :
    (run exec p ω s).acts = (run exec p ω s').acts ∧
      E (run exec p ω s).state (run exec p ω s').state := by
  induction p generalizing ω s s' with
  | done a => exact ⟨rfl, h⟩
  | act o k ih =>
    obtain ⟨hres, hstate⟩ := hp.1 (ω 0) s s' h
    obtain ⟨hacts, hE⟩ := ih (exec o (ω 0) s).1 (hp.2 _) (fun n => ω (n + 1)) hstate
    rw [run_act, run_act, ← hres]
    exact ⟨by rw [hacts], hE⟩

lemma run_comm_op (hE : Equivalence E) {o : Op} {p : Prog Res α} (hp : Only (Respects exec E) p)
    (hind : Only (Independent exec E o) p) (w : Ω) (ω : ℕ → Ω) (s : σ) :
    (run exec p ω (exec o w s).2).acts = (run exec p ω s).acts ∧
    (exec o w (run exec p ω s).state).1 = (exec o w s).1 ∧
    E (run exec p ω (exec o w s).2).state (exec o w (run exec p ω s).state).2 := by
  induction p generalizing ω s with
  | done a => exact ⟨rfl, rfl, hE.refl _⟩
  | act o' k ih =>
    have hres := hind.1.right w (ω 0) s
    have hmoved := run_congr (hp.2 (exec o' (ω 0) s).1) (fun n => ω (n + 1))
      (hind.1.state w (ω 0) s)
    obtain ⟨hacts, hanswer, hstate⟩ := ih _ (hp.2 (exec o' (ω 0) s).1) (hind.2 _)
      (fun n => ω (n + 1)) (exec o' (ω 0) s).2
    rw [run_act, run_act, hres]
    refine ⟨?_, ?_, ?_⟩
    · rw [hmoved.1, hacts]
    · exact hanswer.trans (hind.1.left w (ω 0) s)
    · exact hE.trans hmoved.2 hstate

/-- Programs over independent operations do not change each other's acts, and their order
does not matter. -/
theorem run_comm (hE : Equivalence E) {P Q : Op → Prop} {p : Prog Res α} {q : Prog Res β}
    (hp : Only P p) (hq : Only Q q) (hrespP : ∀ o, P o → Respects exec E o)
    (hrespQ : ∀ o, Q o → Respects exec E o)
    (hind : ∀ o o', P o → Q o' → Independent exec E o o') (ω ω' : ℕ → Ω) (s : σ) :
    (run exec q ω' (run exec p ω s).state).acts = (run exec q ω' s).acts ∧
    (run exec p ω (run exec q ω' s).state).acts = (run exec p ω s).acts ∧
    E (run exec q ω' (run exec p ω s).state).state (run exec p ω (run exec q ω' s).state).state := by
  induction p generalizing ω s with
  | done a => exact ⟨rfl, rfl, hE.refl _⟩
  | act o k ih =>
    obtain ⟨hacts, hanswer, hstate⟩ := run_comm_op hE (hq.mono hrespQ)
      (hq.mono fun o' => hind o o' hp.1) (ω 0) ω' s
    obtain ⟨hacts_q, hacts_p, hswap⟩ := ih (exec o (ω 0) s).1 (hp.2 _) (fun n => ω (n + 1))
      (exec o (ω 0) s).2
    have hmoved := run_congr ((hp.2 (exec o (ω 0) s).1).mono hrespP) (fun n => ω (n + 1)) hstate
    rw [run_act, run_act, hanswer]
    refine ⟨?_, ?_, ?_⟩
    · exact hacts_q.trans hacts
    · rw [← hmoved.1, hacts_p]
    · exact hE.trans hswap hmoved.2

/-! ### Lists of programs -/

section Sequences

variable (exec) (prog : M → Prog Res α) (ω : M → ℕ → Ω)

/-- Execute the programs of the messages one after the other, and list their acts. -/
def runAll : List M → σ → σ × List (M × List (Act Res))
  | [], s => (s, [])
  | m :: ms, s =>
    let x := run exec (prog m) (ω m) s
    let y := runAll ms x.state
    (y.1, (m, x.acts) :: y.2)

/-- The same, where something happens before each message. -/
def runAllBetween (pass : T → σ → σ) : List (T × M) → σ → σ × List (M × List (Act Res))
  | [], s => (s, [])
  | (t, m) :: xs, s =>
    let x := run exec (prog m) (ω m) (pass t s)
    let y := runAllBetween pass xs x.state
    (y.1, (m, x.acts) :: y.2)

variable {exec} {prog} {ω}

lemma runAll_cons (m : M) (ms : List M) (s : σ) :
    runAll exec prog ω (m :: ms) s =
      ((runAll exec prog ω ms (run exec (prog m) (ω m) s).state).1,
        (m, (run exec (prog m) (ω m) s).acts) ::
          (runAll exec prog ω ms (run exec (prog m) (ω m) s).state).2) := rfl

lemma runAllBetween_cons (pass : T → σ → σ) (t : T) (m : M) (xs : List (T × M)) (s : σ) :
    runAllBetween exec prog ω pass ((t, m) :: xs) s =
      ((runAllBetween exec prog ω pass xs (run exec (prog m) (ω m) (pass t s)).state).1,
        (m, (run exec (prog m) (ω m) (pass t s)).acts) ::
          (runAllBetween exec prog ω pass xs (run exec (prog m) (ω m) (pass t s)).state).2) := rfl

lemma runAll_congr {ms : List M} (hresp : ∀ m ∈ ms, Only (Respects exec E) (prog m)) {s s' : σ}
    (h : E s s') :
    (runAll exec prog ω ms s).2 = (runAll exec prog ω ms s').2 ∧
      E (runAll exec prog ω ms s).1 (runAll exec prog ω ms s').1 := by
  induction ms generalizing s s' with
  | nil => exact ⟨rfl, h⟩
  | cons m ms ih =>
    obtain ⟨hacts, hstate⟩ := run_congr (hresp m (by simp)) (ω m) h
    obtain ⟨hrest, hE⟩ := ih (fun m hm => hresp m (List.mem_cons_of_mem _ hm)) hstate
    rw [runAll_cons, runAll_cons]
    exact ⟨by rw [hacts, hrest], hE⟩

/-- What happens between the programs does not matter if it leads to equivalent states. -/
theorem runAllBetween_eq (hE : Equivalence E) {pass : T → σ → σ} (hpass : ∀ t s, E (pass t s) s)
    {xs : List (T × M)} (hresp : ∀ m ∈ xs.map Prod.snd, Only (Respects exec E) (prog m)) (s : σ) :
    (runAllBetween exec prog ω pass xs s).2 = (runAll exec prog ω (xs.map Prod.snd) s).2 ∧
      E (runAllBetween exec prog ω pass xs s).1 (runAll exec prog ω (xs.map Prod.snd) s).1 := by
  induction xs generalizing s with
  | nil => exact ⟨rfl, hE.refl s⟩
  | cons x xs ih =>
    obtain ⟨t, m⟩ := x
    rw [List.map_cons] at hresp ⊢
    have hresp' : ∀ m ∈ xs.map Prod.snd, Only (Respects exec E) (prog m) :=
      fun m hm => hresp m (List.mem_cons_of_mem _ hm)
    obtain ⟨hacts, hstate⟩ := run_congr (hresp m (by simp)) (ω m) (hpass t s)
    obtain ⟨hrest, hrestE⟩ := ih hresp' (run exec (prog m) (ω m) (pass t s)).state
    obtain ⟨hall, hallE⟩ := runAll_congr (ω := ω) hresp' hstate
    rw [runAllBetween_cons, runAll_cons]
    exact ⟨by rw [hacts, hrest, hall], hE.trans hrestE hallE⟩

/-- The operations of the programs of `m` and `m'` are independent. -/
def Unrelated (exec : (o : Op) → Ω → σ → Res o × σ) (E : σ → σ → Prop) (foot : M → Op → Prop)
    (m m' : M) : Prop :=
  ∀ o o', foot m o → foot m' o' → Independent exec E o o'

/-- Programs that are unrelated in pairs can be executed in any order. -/
theorem runAll_perm (hE : Equivalence E) {foot : M → Op → Prop} {ms ms' : List M}
    (hperm : ms.Perm ms') (hfoot : ∀ m ∈ ms, Only (foot m) (prog m))
    (hresp : ∀ m o, foot m o → Respects exec E o) (hind : ms.Pairwise (Unrelated exec E foot))
    (s : σ) :
    (runAll exec prog ω ms s).2.Perm (runAll exec prog ω ms' s).2 ∧
      E (runAll exec prog ω ms s).1 (runAll exec prog ω ms' s).1 := by
  induction hperm generalizing s with
  | nil => exact ⟨List.Perm.refl _, hE.refl _⟩
  | cons m _ ih =>
    obtain ⟨hacts, hstate⟩ := ih (fun m hm => hfoot m (List.mem_cons_of_mem _ hm))
      (List.pairwise_cons.mp hind).2 (run exec (prog m) (ω m) s).state
    rw [runAll_cons, runAll_cons]
    exact ⟨hacts.cons _, hstate⟩
  | swap m m' ms =>
    have hunrelated := (List.pairwise_cons.mp hind).1 m (by simp)
    obtain ⟨hacts, hacts', hstate⟩ := run_comm hE (hfoot m' (by simp)) (hfoot m (by simp))
      (hresp m') (hresp m) hunrelated (ω m') (ω m) s
    have hrest : ∀ m ∈ ms, Only (Respects exec E) (prog m) :=
      fun m hm => (hfoot m (by simp [hm])).mono (hresp m)
    obtain ⟨hall, hallE⟩ := runAll_congr (ω := ω) hrest hstate
    simp only [runAll_cons]
    rw [hacts, hacts', hall]
    exact ⟨List.Perm.swap _ _ _, hallE⟩
  | trans h₁ _ ih₁ ih₂ =>
    have hind' := (h₁.pairwise_iff fun h o o' ho ho' => (h o' o ho' ho).symm hE).mp hind
    obtain ⟨hacts₁, hstate₁⟩ := ih₁ hfoot hind s
    obtain ⟨hacts₂, hstate₂⟩ := ih₂ (fun m hm => hfoot m (h₁.mem_iff.mpr hm)) hind' s
    exact ⟨hacts₁.trans hacts₂, hE.trans hstate₁ hstate₂⟩

end Sequences

/-! ### Keys -/

namespace KeyedView

variable (W : KeyedView exec K V) {o o' : Op} {k : K}

lemma answer_congr (hk : W.key o = some k) (w : Ω) {s s' : σ} (h : W.view k s = W.view k s') :
    (exec o w s).1 = (exec o w s').1 := by
  rw [← W.fits_iff o _ w s' k hk, ← h, W.fits_iff o _ w s k hk]

lemma view_congr (o : Op) (w : Ω) {s s' : σ} (h : ∀ k, W.view k s = W.view k s') (k : K) :
    W.view k (exec o w s).2 = W.view k (exec o w s').2 := by
  by_cases hk : W.key o = some k
  · rw [W.view_hit o w s k hk, W.view_hit o w s' k hk, h k]
  · rw [W.view_miss o w s k hk, W.view_miss o w s' k hk, h k]

lemma view_comm (hne : ∀ k, W.key o = some k → W.key o' ≠ some k) (w w' : Ω) (s : σ) (k : K) :
    W.view k (exec o' w' (exec o w s).2).2 = W.view k (exec o w (exec o' w' s).2).2 := by
  by_cases hk : W.key o = some k
  · rw [W.view_miss o' w' _ k (hne k hk), W.view_hit o w _ k hk, W.view_hit o w _ k hk,
      W.view_miss o' w' _ k (hne k hk)]
  · rw [W.view_miss o w _ k hk]
    by_cases hk' : W.key o' = some k
    · rw [W.view_hit o' w' _ k hk', W.view_hit o' w' _ k hk', W.view_miss o w _ k hk]
    · rw [W.view_miss o' w' _ k hk', W.view_miss o' w' _ k hk', W.view_miss o w _ k hk]

end KeyedView

end AtomicTasks
