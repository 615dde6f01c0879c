import PfcpProxy.Lib.Interleaving

/-!
# One task at a time

The operations of the tasks act on parts of the state named by keys. Where no task is
disturbed between its first and its last operation on a key, the tasks can be executed one at
a time, in the order in which they open their keys, with the same answers and the same state
under every key.
-/

namespace AtomicTasks

variable {Op : Type} {Res : Op → Type} {σ M E Ω K V : Type}

/-! ### Blocks of tagged items -/

/-- `Blocks is l`: the tagged items `l` form one block for each tag, in the order `is`. -/
inductive Blocks {A : Type} : List ℕ → List (ℕ × A) → Prop
  | nil : Blocks [] []
  | opening {is : List ℕ} {l : List (ℕ × A)} {i : ℕ} (a : A) (h : Blocks is l) (hi : i ∉ is) :
    Blocks (is ++ [i]) (l ++ [(i, a)])
  | inside {is : List ℕ} {l : List (ℕ × A)} {i : ℕ} (a : A) (h : Blocks (is ++ [i]) l) :
    Blocks (is ++ [i]) (l ++ [(i, a)])

section Blocks

variable {A : Type} {is : List ℕ} {l : List (ℕ × A)}

lemma Blocks.nodup (h : Blocks is l) : is.Nodup := by
  induction h with
  | nil => exact List.nodup_nil
  | opening a _ hi ih =>
    refine List.nodup_append.mpr ⟨ih, List.nodup_singleton _, ?_⟩
    intro x hx y hy hxy
    rw [List.mem_singleton] at hy
    subst hxy hy
    exact hi hx
  | inside a _ ih => exact ih

lemma Blocks.mem (h : Blocks is l) {x : ℕ × A} (hx : x ∈ l) : x.1 ∈ is := by
  induction h with
  | nil => simp at hx
  | opening a _ _ ih =>
    rw [List.mem_append, List.mem_singleton] at hx
    rcases hx with hx | rfl
    · exact List.mem_append_left _ (ih hx)
    · simp
  | inside a _ ih =>
    rw [List.mem_append, List.mem_singleton] at hx
    rcases hx with hx | rfl
    · exact ih hx
    · simp

lemma Blocks.last {i : ℕ} {a : A} (h : Blocks is (l ++ [(i, a)])) : ∃ is', is = is' ++ [i] := by
  generalize hl : l ++ [(i, a)] = l' at h
  cases h with
  | nil => simp at hl
  | opening b h hi =>
    obtain ⟨_, hb⟩ := List.append_singleton_inj.mp hl
    cases hb
    exact ⟨_, rfl⟩
  | inside b h =>
    obtain ⟨_, hb⟩ := List.append_singleton_inj.mp hl
    cases hb
    exact ⟨_, rfl⟩

lemma flatMap_filter_snoc {i : ℕ} (a : A) (hi : i ∉ is) :
    is.flatMap (fun j => (l ++ [(i, a)]).filter (fun x => x.1 = j)) =
      is.flatMap (fun j => l.filter (fun x => x.1 = j)) := by
  apply List.flatMap_congr
  intro j hj
  have hij : i ≠ j := by
    rintro rfl
    exact hi hj
  simp [List.filter_append, hij]

/-- Collecting the items of each tag gives back the list. -/
theorem Blocks.flatMap (h : Blocks is l) :
    is.flatMap (fun i => l.filter (fun x => x.1 = i)) = l := by
  induction h with
  | nil => rfl
  | @opening is l i a h hi ih =>
    have hnone : l.filter (fun x => x.1 = i) = [] := by
      rw [List.filter_eq_nil_iff]
      intro x hx
      simp only [decide_eq_true_eq]
      rintro rfl
      exact hi (h.mem hx)
    rw [List.flatMap_append, flatMap_filter_snoc a hi, ih, List.flatMap_singleton,
      List.filter_append, hnone]
    simp
  | @inside is l i a h ih =>
    have hi : i ∉ is := by
      have hnodup := h.nodup
      rw [List.nodup_append] at hnodup
      exact fun hm => hnodup.2.2 i hm i (by simp) rfl
    rw [List.flatMap_append, List.flatMap_singleton] at ih ⊢
    rw [flatMap_filter_snoc a hi, List.filter_append, ← List.append_assoc, ih]
    simp

end Blocks

/-! ### Operations on keys -/

/-- A view of the state as values under keys: an operation with a key acts on the value under
that key alone, and its answer depends on that value alone. -/
structure KeyedView (exec : (o : Op) → Ω → σ → Res o × σ) (K V : Type) where
  key : Op → Option K
  view : K → σ → V
  next : Op → V → V
  fits : Act Res → V → Prop
  view_hit : ∀ o w s k, key o = some k → view k (exec o w s).2 = next o (view k s)
  view_miss : ∀ o w s k, key o ≠ some k → view k (exec o w s).2 = view k s
  fits_iff : ∀ o r w s k, key o = some k → (fits ⟨o, r⟩ (view k s) ↔ r = (exec o w s).1)

variable {exec : (o : Op) → Ω → σ → Res o × σ}

/-- The acts `l` take the value `v` under their key to `v'`, with fitting answers. -/
def KeyedView.Trace (W : KeyedView exec K V) : V → List (Act Res) → V → Prop
  | v, [], v' => v = v'
  | v, a :: l, v' => W.fits a v ∧ W.Trace (W.next a.op v) l v'

/-- The acts on the key `k`. -/
def KeyedView.onKey [DecidableEq K] (W : KeyedView exec K V) (k : K) (l : List (Act Res)) :
    List (Act Res) :=
  l.filter (fun a => W.key a.op = some k)

lemma KeyedView.onKey_append [DecidableEq K] (W : KeyedView exec K V) (k : K)
    (l l' : List (Act Res)) : W.onKey k (l ++ l') = W.onKey k l ++ W.onKey k l' :=
  List.filter_append l l'

lemma KeyedView.trace_snoc (W : KeyedView exec K V) {v v' : V} {l : List (Act Res)} {a : Act Res}
    (h : W.Trace v l v') (ha : W.fits a v') : W.Trace v (l ++ [a]) (W.next a.op v') := by
  induction l generalizing v with
  | nil =>
    obtain rfl : v = v' := h
    exact ⟨ha, rfl⟩
  | cons b l ih => exact ⟨h.1, ih h.2⟩

/-- The acts `l`, executed in this order, take the state `s` to `s'`. -/
inductive Replays (exec : (o : Op) → Ω → σ → Res o × σ) : σ → List (Act Res) → σ → Prop
  | nil (s : σ) : Replays exec s [] s
  | cons {s s' : σ} {o : Op} {l : List (Act Res)} (w : Ω) (h : Replays exec (exec o w s).2 l s') :
    Replays exec s (⟨o, (exec o w s).1⟩ :: l) s'

lemma replays_append_iff {s s' : σ} {l l' : List (Act Res)} :
    Replays exec s (l ++ l') s' ↔ ∃ s₁, Replays exec s l s₁ ∧ Replays exec s₁ l' s' := by
  constructor
  · intro h
    induction l generalizing s with
    | nil => exact ⟨s, .nil s, h⟩
    | cons a l ih =>
      cases h with
      | cons w h =>
        obtain ⟨s₁, h₁, h₂⟩ := ih h
        exact ⟨s₁, .cons w h₁, h₂⟩
  · rintro ⟨s₁, h₁, h₂⟩
    induction h₁ with
    | nil s => exact h₂
    | cons w _ ih => exact .cons w (ih h₂)

/-- A program whose acts can be replayed is executed with these acts. -/
theorem run_of_replays {α : Type} [Nonempty Ω] {p : Prog Res α} {l : List (Act Res)} {a : α}
    {s s' : σ} (hp : Path p l (.done a)) (h : Replays exec s l s') :
    ∃ ω, run exec p ω s = ⟨a, s', l⟩ := by
  induction h generalizing p with
  | nil s =>
    obtain rfl := path_nil_iff.mp hp
    exact ⟨fun _ => Classical.arbitrary Ω, rfl⟩
  | cons w _ ih =>
    cases hp with
    | cons r hp =>
      obtain ⟨ω, hω⟩ := ih hp
      refine ⟨fun n => n.casesOn w ω, ?_⟩
      rw [run_act]
      exact congrArg (fun y : Outcome Res σ α => (⟨y.value, y.state, _ :: y.acts⟩ : Outcome Res σ α)) hω

/-- Acts that fit the values under their keys can be replayed. -/
theorem KeyedView.replays [DecidableEq K] [Nonempty Ω] (W : KeyedView exec K V) (I : σ → Prop)
    {l : List (Act Res)} {s : σ} {v : K → V} (hI : ∀ a ∈ l, ∀ w s, I s → I (exec a.op w s).2)
    (hfree : ∀ a ∈ l, W.key a.op = none → ∀ s, I s → ∃ w, a.res = (exec a.op w s).1)
    (hkeys : ∀ k, W.Trace (W.view k s) (W.onKey k l) (v k)) (hs : I s) :
    ∃ s', Replays exec s l s' ∧ ∀ k, W.view k s' = v k := by
  induction l generalizing s with
  | nil => exact ⟨s, .nil s, hkeys⟩
  | cons a l ih =>
    obtain ⟨o, r⟩ := a
    have hres : ∃ w, r = (exec o w s).1 := by
      cases hk : W.key o with
      | none => exact hfree ⟨o, r⟩ (by simp) hk s hs
      | some k =>
        have hfits := hkeys k
        simp only [onKey, List.filter_cons, hk, decide_true, if_true] at hfits
        exact ⟨Classical.arbitrary Ω, (W.fits_iff o r _ s k hk).mp hfits.1⟩
    obtain ⟨w, rfl⟩ := hres
    have hrest : ∀ k, W.Trace (W.view k (exec o w s).2) (W.onKey k l) (v k) := by
      intro k
      have hk' := hkeys k
      by_cases hk : W.key o = some k
      · simp only [onKey, List.filter_cons, hk, decide_true, if_true] at hk'
        rw [W.view_hit o w s k hk]
        exact hk'.2
      · simp only [onKey, List.filter_cons, hk, decide_false, Bool.false_eq_true, if_false] at hk'
        rw [W.view_miss o w s k hk]
        exact hk'
    obtain ⟨s', hrep, hv⟩ := ih (fun a ha => hI a (List.mem_cons_of_mem _ ha))
      (fun a ha => hfree a (List.mem_cons_of_mem _ ha)) hrest (hI _ (List.mem_cons_self ..) w s hs)
    exact ⟨s', .cons w hrep, hv⟩

/-- Programs, each with its acts, executed one at a time. -/
inductive Serially (exec : (o : Op) → Ω → σ → Res o × σ) :
    σ → List (Prog Res Unit × List (Act Res)) → σ → Prop
  | nil (s : σ) : Serially exec s [] s
  | cons {s s' : σ} {f : Prog Res Unit} {fs : List (Prog Res Unit × List (Act Res))} (ω : ℕ → Ω)
      (h : Serially exec (run exec f ω s).state fs s') :
    Serially exec s ((f, (run exec f ω s).acts) :: fs) s'

/-- Programs whose acts, one after the other, can be replayed are executed one at a time. -/
theorem serially_of_replays [Nonempty Ω] {fs : List (Prog Res Unit × List (Act Res))} {s s' : σ}
    (hpaths : ∀ x ∈ fs, Path x.1 x.2 (.done ())) (h : Replays exec s (fs.flatMap Prod.snd) s') :
    Serially exec s fs s' := by
  induction fs generalizing s with
  | nil =>
    cases h with
    | nil => exact .nil _
  | cons x fs ih =>
    obtain ⟨f, l⟩ := x
    rw [List.flatMap_cons, replays_append_iff] at h
    obtain ⟨s₁, h₁, h₂⟩ := h
    obtain ⟨ω, hω⟩ := run_of_replays (hpaths (f, l) (by simp)) h₁
    have hrest := ih (fun x hx => hpaths x (List.mem_cons_of_mem _ hx)) h₂
    have hcons : Serially exec s ((f, (run exec f ω s).acts) :: fs) s' :=
      .cons ω (by rw [hω]; exact hrest)
    rwa [hω] at hcons

/-! ### Histories -/

/-- The acts of all tasks. -/
def allActs (h : List (Event Res σ M E)) : List (Act Res) :=
  h.filterMap (fun e => match e with
    | .act _ a _ => some a
    | _ => none)

lemma allActs_append (h h' : List (Event Res σ M E)) :
    allActs (h ++ h') = allActs h ++ allActs h' := List.filterMap_append

lemma allActs_perm (n : ℕ) (h : List (Event Res σ M E))
    (hn : ∀ i a pre, .act i a pre ∈ h → i < n) :
    (allActs h).Perm ((List.range n).flatMap fun i => acts i h) := by
  induction h with
  | nil => simp [allActs]
  | cons e h ih =>
    have ih' := ih fun i a pre ha => hn i a pre (List.mem_cons_of_mem _ ha)
    cases e with
    | recv i m => exact ih'
    | env e pre => exact ih'
    | act j a pre =>
      obtain ⟨l₁, l₂, hl⟩ := List.append_of_mem
        (List.mem_range.mpr (hn j a pre (List.mem_cons_self ..)))
      have hnodup : (l₁ ++ j :: l₂).Nodup := hl ▸ List.nodup_range
      have hj₁ : j ∉ l₁ := fun hmem => (List.nodup_append.mp hnodup).2.2 j hmem j (by simp) rfl
      have hj₂ : j ∉ l₂ := (List.nodup_cons.mp (List.nodup_append.mp hnodup).2.1).1
      have hrest : ∀ l : List ℕ, j ∉ l →
          l.flatMap (fun i => acts i (.act j a pre :: h)) = l.flatMap fun i => acts i h := by
        intro l hjl
        apply List.flatMap_congr
        intro i hi
        exact acts_act_of_ne (ne_of_mem_of_not_mem hi hjl).symm a pre h
      rw [hl, List.flatMap_append, List.flatMap_cons] at ih' ⊢
      rw [hrest l₁ hj₁, hrest l₂ hj₂, acts_act_self]
      exact (List.Perm.cons a ih').trans List.perm_middle.symm

variable {S : System Res σ M E Ω} {s : σ} {h : List (Event Res σ M E)} {c : Config Res σ M}

/-- In a history the values under the keys change by the acts alone. -/
theorem Run.trace [DecidableEq K] (W : KeyedView S.exec K V) (hr : Run S s h c)
    (henv : ∀ e pre, .env e pre ∈ h → ∀ k, W.view k (S.env e pre) = W.view k pre) (k : K) :
    W.Trace (W.view k s) (W.onKey k (allActs h)) (W.view k c.shared) := by
  induction hr with
  | nil => rfl
  | @snoc h c c' e hr hs ih =>
    have ih' := ih fun e pre he => henv e pre (List.mem_append_left _ he)
    cases hs with
    | recv m => simpa [allActs] using ih'
    | env e =>
      simp only [henv e c.shared (by simp) k]
      simpa [allActs] using ih'
    | act i m o f w hi =>
      by_cases hk : W.key o = some k
      · have hsnoc := W.trace_snoc ih' ((W.fits_iff o _ w c.shared k hk).mpr rfl)
        simpa [allActs, KeyedView.onKey, hk, W.view_hit o w c.shared k hk] using hsnoc
      · simpa [allActs, KeyedView.onKey, hk, W.view_miss o w c.shared k hk] using ih'

/-- The acts on the key `k`, each with its task. -/
def tagged [DecidableEq K] (key : Op → Option K) (k : K) (h : List (Event Res σ M E)) :
    List (ℕ × Act Res) :=
  h.filterMap (fun e => match e with
    | .act i a _ => if key a.op = some k then some (i, a) else none
    | _ => none)

/-- The tasks that open the key `k`, in order. -/
def openers [DecidableEq K] (key : Op → Option K) (opens : Op → Bool) (k : K)
    (h : List (Event Res σ M E)) : List ℕ :=
  h.filterMap (fun e => match e with
    | .act i a _ => if opens a.op ∧ key a.op = some k then some i else none
    | _ => none)

/-- A task opens one key once, and works on no key that it has not opened. -/
def Discipline (key : Op → Option K) (opens : Op → Bool) (l : List (Act Res)) (o : Op) : Prop :=
  (opens o = true → ∀ b ∈ l, opens b.op = false) ∧
    ∀ k, key o = some k → opens o = true ∨ ∃ b ∈ l, opens b.op = true ∧ key b.op = some k

/-- Between two acts of a task on a key no other task works on it. -/
def Undisturbed (key : Op → Option K) (h : List (Event Res σ M E)) : Prop :=
  ∀ h₁ i a pre h₂ b pre' h₃ k, h = h₁ ++ .act i a pre :: h₂ ++ .act i b pre' :: h₃ →
    key a.op = some k → key b.op = some k → ∀ j x pre'', .act j x pre'' ∈ h₂ →
      key x.op = some k → j = i

/-- The task and the key of each act that has one. -/
def keyedActors (key : Op → Option K) (h : List (Event Res σ M E)) : List (ℕ × K) :=
  h.filterMap (fun e => match e with
    | .act i a _ => (key a.op).map (i, ·)
    | _ => none)

/-- Tasks that work on each key one after the other do not disturb each other. -/
lemma undisturbed_of_sorted {key : Op → Option K}
    (hs : (keyedActors key h).Pairwise fun x y => x.2 = y.2 → x.1 ≤ y.1) : Undisturbed key h := by
  rintro h₁ i a pre h₂ b pre' h₃ k rfl ha hb j x pre'' hx hk
  have hj : (j, k) ∈ keyedActors key h₂ := List.mem_filterMap.mpr ⟨_, hx, by simp [hk]⟩
  have hsplit : keyedActors key (h₁ ++ .act i a pre :: h₂ ++ .act i b pre' :: h₃) =
      keyedActors key h₁ ++ ((i, k) :: (keyedActors key h₂ ++ (i, k) :: keyedActors key h₃)) := by
    simp [keyedActors, ha, hb]
  rw [hsplit, List.pairwise_append, List.pairwise_cons, List.pairwise_append] at hs
  obtain ⟨_, ⟨hfirst, _, _, hlast⟩, _⟩ := hs
  exact Nat.le_antisymm (hlast (j, k) hj (i, k) (by simp) rfl) (hfirst (j, k) (by simp [hj]) rfl)

/-- The place of a task in the serial order is where it opens a key, or its reception if it
opens none. -/
def mark (opens : Op → Bool) (h : List (Event Res σ M E)) : Event Res σ M E → Option ℕ
  | .recv i _ => if (acts i h).any (fun a => opens a.op) then none else some i
  | .act i a _ => if opens a.op then some i else none
  | .env _ _ => none

def serialOrder (opens : Op → Bool) (h : List (Event Res σ M E)) : List ℕ :=
  h.filterMap (mark opens h)

section Serialization

variable {Q : M → Unit → List (Act Res) → Prop} {key : Op → Option K} {opens : Op → Bool}
  {h₁ h₂ : List (Event Res σ M E)} {i : ℕ} {a : Act Res} {pre : σ}

lemma Undisturbed.of_append (hu : Undisturbed key (h₁ ++ h₂)) : Undisturbed key h₁ := by
  rintro x i a pre y b pre' z k rfl
  exact hu x i a pre y b pre' (z ++ h₂) k (by simp)

lemma Run.discipline (hI : ∀ m, Guarded (Discipline key opens) (Q m) (S.handler m) [])
    (hr : Run S s (h₁ ++ .act i a pre :: h₂) c) : Discipline key opens (acts i h₁) a.op := by
  obtain ⟨_, _, hdisc⟩ := hr.act_guarded hI
  exact hdisc

variable [DecidableEq K]

lemma mem_tagged {k : K} {x : ℕ × Act Res} :
    x ∈ tagged key k h ↔ ∃ pre, .act x.1 x.2 pre ∈ h ∧ key x.2.op = some k := by
  obtain ⟨i, a⟩ := x
  simp only [tagged, List.mem_filterMap]
  constructor
  · rintro ⟨e, he, hx⟩
    cases e with
    | act j b pre =>
      simp only [Option.ite_none_right_eq_some, Option.some.injEq, Prod.mk.injEq] at hx
      obtain ⟨hk, rfl, rfl⟩ := hx
      exact ⟨pre, he, hk⟩
    | recv j m => cases hx
    | env e pre => cases hx
  · rintro ⟨pre, he, hk⟩
    exact ⟨_, he, by simp [hk]⟩

lemma mem_openers {k : K} :
    i ∈ openers key opens k h ↔ ∃ a ∈ acts i h, opens a.op = true ∧ key a.op = some k := by
  simp only [openers, List.mem_filterMap]
  constructor
  · rintro ⟨e, he, hx⟩
    cases e with
    | act j b pre =>
      simp only [Option.ite_none_right_eq_some, Option.some.injEq] at hx
      obtain ⟨hk, rfl⟩ := hx
      exact ⟨b, mem_acts_iff.mpr ⟨pre, he⟩, hk⟩
    | recv j m => cases hx
    | env e pre => cases hx
  · rintro ⟨a, ha, hk⟩
    obtain ⟨pre, he⟩ := mem_acts_iff.mp ha
    exact ⟨_, he, by simp [hk]⟩

/-- The acts on a key form one block for each task that opens it. -/
theorem Run.blocks (hI : ∀ m, Guarded (Discipline key opens) (Q m) (S.handler m) [])
    (hr : Run S s h c) (hu : Undisturbed key h) (k : K) :
    Blocks (openers key opens k h) (tagged key k h) := by
  induction hr with
  | nil => exact .nil
  | @snoc h c c' e hr hs ih =>
    have ih' := ih hu.of_append
    have hr' := hr.snoc hs
    cases hs with
    | recv m => simpa [openers, tagged] using ih'
    | env e => simpa [openers, tagged] using ih'
    | act i m o f w hi =>
      obtain ⟨honce, hopened⟩ := hr'.discipline hI
      by_cases hk : key o = some k
      · cases ho : opens o with
        | true =>
          have hnew : i ∉ openers key opens k h := by
            intro hm
            obtain ⟨b, hb, hbo, _⟩ := mem_openers.mp hm
            rw [honce ho b hb] at hbo
            cases hbo
          simpa [openers, tagged, hk, ho] using ih'.opening _ hnew
        | false =>
          -- the last act on the key is one of the same task
          obtain hop | ⟨b, hb, _, hbk⟩ := hopened k hk
          · rw [ho] at hop
            cases hop
          obtain ⟨x, pre, y, hxy⟩ := exists_split_of_mem_acts hb
          have hlast : ∃ l b', tagged key k h = l ++ [(i, b')] := by
            have hsplit : tagged key k h = tagged key k x ++ (i, b) :: tagged key k y := by
              simp [hxy, tagged, hbk]
            rw [hsplit]
            rcases List.eq_nil_or_concat (tagged key k y) with hy | ⟨l, ⟨j, b'⟩, hy⟩
            · exact ⟨_, b, by rw [hy]⟩
            · have hmem : (j, b') ∈ tagged key k y := by simp [hy]
              obtain ⟨pre', hj, hjk⟩ := mem_tagged.mp hmem
              obtain rfl : j = i := hu x i b pre y _ _ [] k (by rw [hxy]) hbk hk j b' pre' hj hjk
              exact ⟨tagged key k x ++ (j, b) :: l, b', by simp [hy]⟩
          obtain ⟨l, b', hl⟩ := hlast
          rw [hl] at ih'
          obtain ⟨is, his⟩ := ih'.last
          rw [his] at ih'
          have hins := ih'.inside ⟨o, (S.exec o w c.shared).1⟩
          rw [← his, ← hl] at hins
          simpa [openers, tagged, hk, ho] using hins
      · simpa [openers, tagged, hk] using ih'

/-! ### The serial order -/

lemma pairwise_of_splits {α : Type} {R : α → α → Prop} {l : List α}
    (h : ∀ x e y, l = x ++ e :: y → ∀ e' ∈ x, R e' e) : l.Pairwise R := by
  induction l using List.reverseRecOn with
  | nil => exact .nil
  | append_singleton l e ih =>
    rw [List.pairwise_append]
    refine ⟨ih fun x e' y hsplit => h x e' (y ++ [e]) (by simp [hsplit]), by simp, ?_⟩
    intro e' he' e'' he''
    rw [List.mem_singleton] at he''
    subst he''
    exact h l e'' [] rfl e' he'

lemma Run.recv_new {m m' : M} (hr : Run S s (h₁ ++ .recv i m :: h₂) c) : .recv i m' ∉ h₁ := by
  intro hm
  obtain ⟨c₁, c₂, hr₁, hs, _⟩ := hr.split
  cases hs with
  | recv =>
    obtain ⟨p, hp⟩ := hr₁.exists_task hm
    exact absurd (List.getElem?_eq_some_iff.mp hp).1 (Nat.lt_irrefl _)

lemma Run.acts_of_recv_new {m : M} (hr : Run S s (h₁ ++ .recv i m :: h₂) c) : acts i h₁ = [] := by
  obtain ⟨c₁, c₂, hr₁, hs, _⟩ := hr.split
  rw [List.eq_nil_iff_forall_not_mem]
  intro a ha
  obtain ⟨pre, hp⟩ := mem_acts_iff.mp ha
  cases hs with
  | recv => exact absurd (hr₁.act_lt hp) (Nat.lt_irrefl _)

omit [DecidableEq K] in
lemma Run.serialOrder_nodup (hI : ∀ m, Guarded (Discipline key opens) (Q m) (S.handler m) [])
    (hr : Run S s h c) : (serialOrder opens h).Nodup := by
  rw [serialOrder, List.Nodup, List.pairwise_filterMap]
  apply pairwise_of_splits
  rintro x e y rfl e' he' i hi j hj rfl
  cases e with
  | recv j m =>
    simp only [mark, Option.ite_none_left_eq_some, Option.some.injEq] at hj
    obtain ⟨hno, rfl⟩ := hj
    cases e' with
    | recv j' m' =>
      simp only [mark, Option.ite_none_left_eq_some, Option.some.injEq] at hi
      obtain ⟨_, rfl⟩ := hi
      exact hr.recv_new he'
    | act j' b pre =>
      simp only [mark, Option.ite_none_right_eq_some, Option.some.injEq] at hi
      obtain ⟨hb, rfl⟩ := hi
      refine hno (List.any_eq_true.mpr ⟨b, mem_acts_iff.mpr ⟨pre, ?_⟩, hb⟩)
      exact List.mem_append_left _ he'
    | env e pre => cases hi
  | act j a pre =>
    simp only [mark, Option.ite_none_right_eq_some, Option.some.injEq] at hj
    obtain ⟨ha, rfl⟩ := hj
    cases e' with
    | recv j' m' =>
      simp only [mark, Option.ite_none_left_eq_some, Option.some.injEq] at hi
      obtain ⟨hno, rfl⟩ := hi
      exact hno (List.any_eq_true.mpr ⟨a, mem_acts_append_cons _ _ _ _ _, ha⟩)
    | act j' b pre' =>
      simp only [mark, Option.ite_none_right_eq_some, Option.some.injEq] at hi
      obtain ⟨hb, rfl⟩ := hi
      have honce := (hr.discipline hI).1 ha b (mem_acts_iff.mpr ⟨pre', he'⟩)
      rw [hb] at honce
      cases honce
    | env e pre => cases hi
  | env e pre => cases hj

omit [DecidableEq K] in
/-- Every task has its place in the serial order. -/
theorem Run.serialOrder_perm (hI : ∀ m, Guarded (Discipline key opens) (Q m) (S.handler m) [])
    (hr : Run S s h c) : (serialOrder opens h).Perm (List.range c.tasks.length) := by
  rw [List.perm_ext_iff_of_nodup (hr.serialOrder_nodup hI) List.nodup_range]
  intro i
  rw [List.mem_range, serialOrder, List.mem_filterMap]
  constructor
  · rintro ⟨e, he, hi⟩
    cases e with
    | recv j m =>
      simp only [mark, Option.ite_none_left_eq_some, Option.some.injEq] at hi
      obtain ⟨_, rfl⟩ := hi
      obtain ⟨p, hp⟩ := hr.exists_task he
      exact (List.getElem?_eq_some_iff.mp hp).1
    | act j a pre =>
      simp only [mark, Option.ite_none_right_eq_some, Option.some.injEq] at hi
      obtain ⟨_, rfl⟩ := hi
      exact hr.act_lt he
    | env e pre => cases hi
  · intro hi
    have hrecv := hr.recv_mem (List.getElem?_eq_getElem hi)
    cases hany : (acts i h).any (fun a => opens a.op) with
    | true =>
      obtain ⟨a, ha, hop⟩ := List.any_eq_true.mp hany
      obtain ⟨pre, hpre⟩ := mem_acts_iff.mp ha
      exact ⟨_, hpre, by simp [mark, hop]⟩
    | false => exact ⟨_, hrecv, by simp [mark, hany]⟩

/-- Task `i` has performed all its acts before task `j` is started. -/
def Precedes (h : List (Event Res σ M E)) (i j : ℕ) : Prop :=
  ∃ x m y m', h = x ++ .recv j m :: y ∧ .recv i m' ∈ x ∧ acts i y = []

omit [DecidableEq K] in
/-- The serial order respects the order of tasks that do not overlap. -/
theorem Run.serialOrder_respects (opens : Op → Bool) {j : ℕ} (hr : Run S s h c)
    (hij : Precedes h i j) : [i, j].Sublist (serialOrder opens h) := by
  obtain ⟨x, m, y, m', rfl, hi, hy⟩ := hij
  have hx := hr.acts_of_recv_new
  rw [serialOrder, List.filterMap_append]
  change ([i] ++ [j]).Sublist _
  apply List.Sublist.append
  · rw [List.singleton_sublist, List.mem_filterMap]
    cases hany : (acts i (x ++ .recv j m :: y)).any (fun a => opens a.op) with
    | true =>
      obtain ⟨a, ha, hop⟩ := List.any_eq_true.mp hany
      rw [acts_append, acts_recv, hy, List.append_nil] at ha
      obtain ⟨pre, hpre⟩ := mem_acts_iff.mp ha
      exact ⟨_, hpre, by simp [mark, hop]⟩
    | false => exact ⟨_, hi, by rw [mark, hany]; rfl⟩
  · rw [List.singleton_sublist, List.mem_filterMap]
    cases hany : (acts j (x ++ .recv j m :: y)).any (fun a => opens a.op) with
    | true =>
      obtain ⟨a, ha, hop⟩ := List.any_eq_true.mp hany
      rw [acts_append, acts_recv, hx, List.nil_append] at ha
      obtain ⟨pre, hpre⟩ := mem_acts_iff.mp ha
      exact ⟨_, List.mem_cons_of_mem _ hpre, by simp [mark, hop]⟩
    | false => exact ⟨_, List.mem_cons_self .., by rw [mark, hany]; rfl⟩

/-! ### The same acts on every key -/

omit [DecidableEq K] in
lemma Run.opens_unique (hI : ∀ m, Guarded (Discipline key opens) (Q m) (S.handler m) [])
    (hr : Run S s h c) {b : Act Res} (ha : a ∈ acts i h) (hb : b ∈ acts i h)
    (hao : opens a.op = true) (hbo : opens b.op = true) : a = b := by
  obtain ⟨pre, hpre⟩ := mem_acts_iff.mp ha
  have hi := hr.act_lt hpre
  obtain ⟨p, _, hpath⟩ := hr.handler_path (hr.recv_mem (List.getElem?_eq_getElem hi))
  refine (hI _).once (fun o => opens o = true) hpath (fun l o hd ho x hx => ?_) ha hb hao hbo
  simp [hd.1 ho x hx]

lemma flatMap_filter_of_nil {α β : Type} {f : α → List β} {p : α → Bool} {l : List α}
    (h : ∀ x ∈ l, p x = false → f x = []) : (l.filter p).flatMap f = l.flatMap f := by
  induction l with
  | nil => rfl
  | cons x l ih =>
    have ih' := ih fun y hy => h y (List.mem_cons_of_mem _ hy)
    cases hp : p x with
    | true => rw [List.filter_cons_of_pos hp, List.flatMap_cons, List.flatMap_cons, ih']
    | false =>
      rw [List.filter_cons_of_neg (by simp [hp]), List.flatMap_cons, h x (by simp) hp, ih',
        List.nil_append]

lemma Run.serialOrder_filter (hI : ∀ m, Guarded (Discipline key opens) (Q m) (S.handler m) [])
    (hr : Run S s h c) (k : K) :
    (serialOrder opens h).filter (fun i => i ∈ openers key opens k h) = openers key opens k h := by
  rw [serialOrder, List.filter_filterMap]
  conv_rhs => rw [openers]
  apply List.filterMap_congr
  intro e he
  cases e with
  | recv i m =>
    cases hany : (acts i h).any (fun a => opens a.op) with
    | true => simp only [mark, hany, if_true, Option.filter_none]
    | false =>
      have hnot : i ∉ openers key opens k h := by
        intro hm
        obtain ⟨a, ha, hop, _⟩ := mem_openers.mp hm
        rw [List.any_eq_false] at hany
        exact hany a ha hop
      simp only [mark, hany, Bool.false_eq_true, if_false, Option.filter_some, hnot, decide_false]
  | act i a pre =>
    by_cases hop : opens a.op = true
    · have hiff : i ∈ openers key opens k h ↔ key a.op = some k := by
        rw [mem_openers]
        constructor
        · rintro ⟨b, hb, hbo, hbk⟩
          rwa [hr.opens_unique hI (mem_acts_iff.mpr ⟨pre, he⟩) hb hop hbo]
        · exact fun hk => ⟨a, mem_acts_iff.mpr ⟨pre, he⟩, hop, hk⟩
      by_cases hk : key a.op = some k <;> simp [mark, hop, hiff, hk]
    · simp [mark, hop]
  | env e pre => rfl

lemma KeyedView.onKey_acts (W : KeyedView exec K V) (k : K) (i : ℕ) (h : List (Event Res σ M E)) :
    W.onKey k (acts i h) = ((tagged W.key k h).filter (fun x => x.1 = i)).map Prod.snd := by
  simp only [KeyedView.onKey, acts, tagged, List.filter_filterMap, List.map_filterMap]
  apply List.filterMap_congr
  intro e _
  cases e with
  | act j a pre =>
    by_cases hk : W.key a.op = some k <;> by_cases hj : j = i <;>
      simp [Event.actOf, Option.filter_some, hk, hj]
  | recv j m => rfl
  | env e pre => rfl

lemma KeyedView.onKey_allActs (W : KeyedView exec K V) (k : K) (h : List (Event Res σ M E)) :
    W.onKey k (allActs h) = (tagged W.key k h).map Prod.snd := by
  simp only [KeyedView.onKey, allActs, tagged, List.filter_filterMap, List.map_filterMap]
  apply List.filterMap_congr
  intro e _
  cases e with
  | act j a pre =>
    by_cases hk : W.key a.op = some k <;> simp [Option.filter_some, hk]
  | recv j m => rfl
  | env e pre => rfl

/-- Taken task by task in the serial order, the acts on a key are what they are in the
history. -/
theorem Run.flatMap_onKey (W : KeyedView exec K V)
    (hI : ∀ m, Guarded (Discipline W.key opens) (Q m) (S.handler m) []) (hr : Run S s h c)
    (hu : Undisturbed W.key h) (k : K) :
    (serialOrder opens h).flatMap (fun i => W.onKey k (acts i h)) = W.onKey k (allActs h) := by
  have hoff : ∀ i ∈ serialOrder opens h, decide (i ∈ openers W.key opens k h) = false →
      W.onKey k (acts i h) = [] := by
    intro i _ hi
    rw [decide_eq_false_iff_not, mem_openers] at hi
    rw [KeyedView.onKey, List.filter_eq_nil_iff]
    intro a ha hk
    rw [decide_eq_true_eq] at hk
    obtain ⟨x, pre, y, rfl⟩ := exists_split_of_mem_acts ha
    rcases (hr.discipline hI).2 k hk with hop | ⟨b, hb, hbo, hbk⟩
    · exact hi ⟨a, ha, hop, hk⟩
    · exact hi ⟨b, by simp [hb], hbo, hbk⟩
  calc (serialOrder opens h).flatMap (fun i => W.onKey k (acts i h))
      = (openers W.key opens k h).flatMap (fun i => W.onKey k (acts i h)) := by
        rw [← flatMap_filter_of_nil hoff, hr.serialOrder_filter hI k]
    _ = ((openers W.key opens k h).flatMap
          (fun i => (tagged W.key k h).filter (fun x => x.1 = i))).map Prod.snd := by
        rw [List.map_flatMap]
        simp only [W.onKey_acts]
    _ = W.onKey k (allActs h) := by
        rw [(hr.blocks hI hu k).flatMap, W.onKey_allActs]

/-- Serializability: undisturbed tasks can be executed one at a time, in an order that respects
the order of tasks that do not overlap, with the acts they have in the history and the same
values under all keys at the end. `f i` is the part of task `i` that is executed and `l i` its
acts; it contains all acts on keys, and `I` is what its other acts depend on. -/
theorem Run.serializable [Nonempty Ω] (W : KeyedView S.exec K V)
    (hI : ∀ m, Guarded (Discipline W.key opens) (Q m) (S.handler m) []) (hr : Run S s h c)
    (hu : Undisturbed W.key h)
    (henv : ∀ e pre, .env e pre ∈ h → ∀ k, W.view k (S.env e pre) = W.view k pre)
    {f : ℕ → Prog Res Unit} {l : ℕ → List (Act Res)}
    (hpath : ∀ i < c.tasks.length, Path (f i) (l i) (.done ()))
    (hl : ∀ i < c.tasks.length, ∀ k, W.onKey k (l i) = W.onKey k (acts i h)) (I : σ → Prop)
    (hkeep : ∀ i < c.tasks.length, ∀ a ∈ l i, ∀ w s, I s → I (S.exec a.op w s).2)
    (hfree : ∀ i < c.tasks.length, ∀ a ∈ l i, W.key a.op = none → ∀ s, I s →
      ∃ w, a.res = (S.exec a.op w s).1) (hs : I s) :
    ∃ s', Serially S.exec s ((serialOrder opens h).map (fun i => (f i, l i))) s' ∧
      ∀ k, W.view k s' = W.view k c.shared := by
  have hlt : ∀ i ∈ serialOrder opens h, i < c.tasks.length := fun i hi =>
    List.mem_range.mp ((hr.serialOrder_perm hI).mem_iff.mp hi)
  have hkeys : ∀ k, W.Trace (W.view k s) (W.onKey k ((serialOrder opens h).flatMap l))
      (W.view k c.shared) := by
    intro k
    have hacts : W.onKey k ((serialOrder opens h).flatMap l) = W.onKey k (allActs h) := by
      rw [← hr.flatMap_onKey W hI hu k, KeyedView.onKey, List.filter_flatMap]
      exact List.flatMap_congr fun i hi => hl i (hlt i hi) k
    rw [hacts]
    exact hr.trace W henv k
  obtain ⟨s', hrep, hview⟩ := W.replays I (l := (serialOrder opens h).flatMap l)
    (fun a ha => by
      obtain ⟨i, hi, hai⟩ := List.mem_flatMap.mp ha
      exact hkeep i (hlt i hi) a hai)
    (fun a ha => by
      obtain ⟨i, hi, hai⟩ := List.mem_flatMap.mp ha
      exact hfree i (hlt i hi) a hai) hkeys hs
  refine ⟨s', serially_of_replays ?_ ?_, hview⟩
  · intro x hx
    obtain ⟨i, hi, rfl⟩ := List.mem_map.mp hx
    exact hpath i (hlt i hi)
  · rwa [List.flatMap_map]

end Serialization

end AtomicTasks
