import PfcpProxy.Lib.Commutation

/-!
# Interleavings of independent tasks

Where the acts of different tasks are independent, an interleaving can be rearranged: the acts of
each task are moved together, one task after the other, in any order of the tasks. They keep
their answers, and the state at the end is an equivalent one.
-/

namespace AtomicTasks

variable {Op : Type} {Res : Op → Type} {σ M Env Ω : Type}
  {exec : (o : Op) → Ω → σ → Res o × σ} {E : σ → σ → Prop}

/-! ### Moving an act -/

lemma Replays.congr {l : List (Act Res)} (hresp : ∀ a ∈ l, Respects exec E a.op) {s s' t : σ}
    (h : Replays exec s l s') (hst : E s t) : ∃ t', Replays exec t l t' ∧ E s' t' := by
  induction h generalizing t with
  | nil s => exact ⟨t, .nil t, hst⟩
  | @cons s s' o l w h ih =>
    obtain ⟨hres, hnext⟩ := hresp _ (List.mem_cons_self ..) w s t hst
    obtain ⟨t', hreplay, hend⟩ := ih (fun a ha => hresp a (List.mem_cons_of_mem _ ha)) hnext
    refine ⟨t', ?_, hend⟩
    simp only at hres
    rw [hres]
    exact .cons w hreplay

lemma Replays.move_front (hE : Equivalence E) {l : List (Act Res)} {a : Act Res}
    (hresp : ∀ b ∈ l, Respects exec E b.op) (hind : ∀ b ∈ l, Independent exec E a.op b.op)
    {s s' : σ} (h : Replays exec s (l ++ [a]) s') :
    ∃ t, Replays exec s (a :: l) t ∧ E s' t := by
  induction l generalizing s with
  | nil => exact ⟨s', h, hE.refl s'⟩
  | cons b l ih =>
    rw [List.cons_append] at h
    cases h with
    | @cons _ _ o _ w h =>
      obtain ⟨t, hmoved, ht⟩ := ih (fun b hb => hresp b (List.mem_cons_of_mem _ hb))
        (fun b hb => hind b (List.mem_cons_of_mem _ hb)) h
      cases hmoved with
      | @cons _ _ o' _ w' hmoved =>
        have hab := hind _ (List.mem_cons_self ..)
        simp only at hab
        -- the two operations change places, and what follows them starts from an equivalent state
        obtain ⟨t', hrest, ht'⟩ := hmoved.congr
          (fun b hb => hresp b (List.mem_cons_of_mem _ hb)) (hE.symm (hab.state w' w s))
        refine ⟨t', ?_, hE.trans ht ht'⟩
        rw [hab.left w' w s, ← hab.right w' w s]
        exact .cons w' (.cons w hrest)

/-! ### Rearranging a run -/

variable {S : System Res σ M Env Ω} {s : σ} {h : List (Event Res σ M Env)} {c : Config Res σ M}

/-- The acts of different tasks are independent. -/
def TasksIndependent (exec : (o : Op) → Ω → σ → Res o × σ) (E : σ → σ → Prop)
    (h : List (Event Res σ M Env)) : Prop :=
  ∀ i j a b, i ≠ j → a ∈ acts i h → b ∈ acts j h → Independent exec E a.op b.op

lemma TasksIndependent.of_append {h h' : List (Event Res σ M Env)}
    (hind : TasksIndependent exec E (h ++ h')) : TasksIndependent exec E h :=
  fun i j a b hij ha hb => hind i j a b hij (by simp [ha]) (by simp [hb])

lemma acts_snoc_of_notMem {i : ℕ} {a : Act Res} {pre : σ} {is : List ℕ} (hi : i ∉ is) :
    is.flatMap (fun j => acts j (h ++ [.act i a pre])) = is.flatMap (fun j => acts j h) := by
  apply List.flatMap_congr
  intro j hj
  have hij : i ≠ j := fun heq => hi (heq ▸ hj)
  simp [hij]

/-- The acts of a run, task by task in any order of the tasks, can be replayed, and lead to an
equivalent state. -/
theorem Run.replays_by_task (hE : Equivalence E) (hr : Run S s h c)
    (henv : ∀ e pre, .env e pre ∈ h → E (S.env e pre) pre)
    (hresp : ∀ i, ∀ a ∈ acts i h, Respects S.exec E a.op)
    (hind : TasksIndependent S.exec E h) {is : List ℕ} (hnodup : is.Nodup)
    (hall : ∀ i < c.tasks.length, i ∈ is) :
    ∃ s', Replays S.exec s (is.flatMap fun i => acts i h) s' ∧ E s' c.shared := by
  induction hr with
  | nil =>
    have hnil : (is.flatMap fun i => acts i ([] : List (Event Res σ M Env))) = [] :=
      List.flatMap_eq_nil_iff.mpr fun _ _ => rfl
    rw [hnil]
    exact ⟨s, .nil s, hE.refl s⟩
  | @snoc h c c' e hr hs ih =>
    have henv' : ∀ e pre, .env e pre ∈ h → E (S.env e pre) pre :=
      fun e pre he => henv e pre (List.mem_append_left _ he)
    have hresp' : ∀ i, ∀ a ∈ acts i h, Respects S.exec E a.op :=
      fun i a ha => hresp i a (by simp [ha])
    cases hs with
    | recv m =>
      obtain ⟨s', hreplay, hs'⟩ := ih henv' hresp' hind.of_append fun i hi => hall i (by simp; omega)
      exact ⟨s', by simpa using hreplay, hs'⟩
    | env e =>
      obtain ⟨s', hreplay, hs'⟩ := ih henv' hresp' hind.of_append hall
      refine ⟨s', by simpa using hreplay, hE.trans hs' (hE.symm ?_)⟩
      exact henv e c.shared (by simp)
    | act i m o k w hi =>
      have hlt : i < c.tasks.length := (List.getElem?_eq_some_iff.mp hi).1
      obtain ⟨s', hreplay, hs'⟩ := ih henv' hresp' hind.of_append
        fun j hj => hall j (by simpa using hj)
      obtain ⟨is₁, is₂, rfl⟩ := List.append_of_mem (hall i (by simpa using hlt))
      have hnot : i ∉ is₁ ∧ i ∉ is₂ := by
        rw [List.nodup_middle, List.nodup_cons, List.mem_append] at hnodup
        exact not_or.mp hnodup.1
      let a : Act Res := ⟨o, (S.exec o w c.shared).1⟩
      have ha : a ∈ acts i (h ++ [.act i a c.shared]) := by simp
      have hresp_a : Respects S.exec E o := hresp i a ha
      -- the act is executed last, then moved to the end of its own task
      obtain ⟨hres, hnext⟩ := hresp_a w s' c.shared hs'
      rw [List.flatMap_append, List.flatMap_cons, ← List.append_assoc, replays_append_iff] at hreplay
      obtain ⟨t, hfront, hback⟩ := hreplay
      have hlast : Replays S.exec t (is₂.flatMap (fun j => acts j h) ++ [a])
          (S.exec o w s').2 := by
        rw [replays_append_iff]
        refine ⟨s', hback, ?_⟩
        simp only [a]
        rw [← hres]
        exact .cons w (.nil _)
      have hback_mem : ∀ b ∈ is₂.flatMap (fun j => acts j h), ∃ j, j ≠ i ∧ b ∈ acts j h := by
        intro b hb
        obtain ⟨j, hj, hbj⟩ := List.mem_flatMap.mp hb
        exact ⟨j, fun heq => hnot.2 (heq ▸ hj), hbj⟩
      obtain ⟨t', hmoved, ht'⟩ := hlast.move_front hE
        (fun b hb => by
          obtain ⟨j, _, hbj⟩ := hback_mem b hb
          exact hresp' j b hbj)
        (fun b hb => by
          obtain ⟨j, hj, hbj⟩ := hback_mem b hb
          exact hind i j a b hj.symm ha (by simp [hbj]))
      refine ⟨t', ?_, hE.trans (hE.symm ht') hnext⟩
      have hacts : acts i (h ++ [.act i a c.shared]) = acts i h ++ [a] := by simp
      rw [List.flatMap_append, List.flatMap_cons, acts_snoc_of_notMem hnot.1,
        acts_snoc_of_notMem hnot.2, hacts, List.append_assoc, List.singleton_append,
        ← List.append_assoc, replays_append_iff]
      exact ⟨t, hfront, hmoved⟩

/-- Reduction: tasks whose acts are independent can be executed one at a time, in any order, with
the acts they have in the run and an equivalent state at the end. -/
theorem Run.serially_in_any_order [Nonempty Ω] (hE : Equivalence E) (hr : Run S s h c)
    (hdone : ∀ t ∈ c.tasks, t.prog = .done ())
    (henv : ∀ e pre, .env e pre ∈ h → E (S.env e pre) pre)
    (hresp : ∀ i, ∀ a ∈ acts i h, Respects S.exec E a.op)
    (hind : TasksIndependent S.exec E h) {xs : List (ℕ × M)} (hperm : xs.Perm (receptions h)) :
    ∃ s', Serially S.exec s (xs.map fun x => (S.handler x.2, acts x.1 h)) s' ∧ E s' c.shared := by
  have hfst : (xs.map Prod.fst).Perm (List.range c.tasks.length) := by
    rw [← hr.receptions_fst]
    exact hperm.map Prod.fst
  obtain ⟨s', hreplay, hs'⟩ := hr.replays_by_task hE henv hresp hind
    (hfst.nodup_iff.mpr List.nodup_range) fun i hi => hfst.mem_iff.mpr (List.mem_range.mpr hi)
  refine ⟨s', serially_of_replays ?_ ?_, hs'⟩
  · intro y hy
    obtain ⟨⟨i, m⟩, hx, rfl⟩ := List.mem_map.mp hy
    obtain ⟨p, ht, hpath⟩ := hr.handler_path (mem_receptions_iff.mp (hperm.mem_iff.mp hx))
    obtain rfl : p = .done () := hdone _ (List.mem_of_getElem? ht)
    exact hpath
  · rw [List.flatMap_map] at hreplay ⊢
    exact hreplay

end AtomicTasks
