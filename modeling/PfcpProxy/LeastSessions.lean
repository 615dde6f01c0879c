import PfcpProxy.Lib.LeastLoaded
import PfcpProxy.PoolInvariant
import PfcpProxy.Selection
import Mathlib.Data.Set.Card

/-!
# Balance under the least-sessions strategy

A handler of an establishment request selects the backend with the fewest sessions and
records the session later. Seen from the session counts, a run of such requests assigns
work to a least loaded backend that arrives when the session is recorded, so that the
backends differ by no more sessions than handlers stand between the two.
-/

namespace PfcpProxy

open AtomicTasks

/-! ### Counting finds a minimum -/

lemma leastSessions_least {t : SessionTable} {bs : List UpfBackend} {n : ℕ}
    {sel : Option SocketAddr} {u : SocketAddr} (h : leastSessions t bs n sel = some u)
    (hsel : ∀ a, sel = some a → t.countByUpf a ≤ n) :
    t.countByUpf u ≤ n ∧ ∀ b ∈ bs, t.countByUpf u ≤ t.countByUpf b.addr := by
  induction bs generalizing n sel with
  | nil => exact ⟨hsel u h, by simp⟩
  | cons b bs ih =>
    unfold leastSessions at h
    by_cases hb : t.countByUpf b.addr < n
    · simp only [hb, if_true] at h
      obtain ⟨hn, hbs⟩ := ih h (fun a ha => by cases ha; exact Nat.le_refl _)
      exact ⟨by omega, by simpa using ⟨hn, hbs⟩⟩
    · simp only [hb, if_false] at h
      obtain ⟨hn, hbs⟩ := ih h hsel
      exact ⟨hn, by simpa using ⟨by omega, hbs⟩⟩

/-- A loop whose counts are all answered by one table finds what that table has. -/
lemma leastSessionsLoop_path {t : SessionTable} {bs : List UpfBackend} {n : ℕ}
    {sel r : Option SocketAddr} {l : Acts} (hp : Path (leastSessionsLoop bs n sel) l (.done r))
    (hl : ∀ v m, ⟨.sessionCountByUpf v, m⟩ ∈ l → m = t.countByUpf v) :
    r = leastSessions t bs n sel := by
  induction bs generalizing n sel l with
  | nil =>
    obtain ⟨_, hr⟩ := path_done_iff.mp hp
    simpa [leastSessions] using hr
  | cons b bs ih =>
    rw [leastSessionsLoop, Prog.call_bind] at hp
    cases hp with
    | @cons _ _ l _ m hp =>
      obtain rfl : m = t.countByUpf b.addr := hl b.addr m (by simp)
      have hl' : ∀ v m, ⟨.sessionCountByUpf v, m⟩ ∈ l → m = t.countByUpf v :=
        fun v m hm => hl v m (List.mem_cons_of_mem _ hm)
      unfold leastSessions
      by_cases hb : t.countByUpf b.addr < n
      · simp only [hb, if_true] at hp ⊢
        exact ih hp hl'
      · simp only [hb, if_false] at hp ⊢
        exact ih hp hl'

/-! ### Selection and what follows -/

/-- What the handler of an establishment request does first. -/
def selection : Handler (Option SocketAddr) := do
  recordMessageReceived .sessionEstablishmentRequest
  selectUpf

/-- What the handler of an establishment request does with the selected UPF. -/
def settle (d : Datagram) (s : UInt64) (q : UInt32) : Option SocketAddr → Handler Unit
  | none => return ()
  | some u => do
    recordRoutingDecision false false
    recordSessionEstablished
    perform (.sessionInsert s u d.src)
    forwardRequest d.data d.src q (.single u)

lemma handleMessage_establishment {d : Datagram} {s : UInt64} {q : UInt32}
    (hd : d.header = some ⟨.sessionEstablishmentRequest, some s, q⟩) :
    handleMessage d = selection >>= settle d s q := by
  rw [handleMessage_smf hd rfl]
  simp only [selection, routeMessage, routeEstablishment, bind_assoc]
  congr 1
  funext _
  congr 1
  funext r
  cases r <;> rfl

lemma selection_quiet : Only (fun o => o.isQuiet = true) selection := by
  refine ⟨rfl, fun _ => ⟨rfl, fun _ => ?_⟩⟩
  exact selectUpf_only.mono fun _ => Op.quiet_of_selection

/-- Among its acts, the handler has come to select `u`. -/
def Selected (l : Acts) (u : SocketAddr) : Prop :=
  ∃ l₁ l₂, l = l₁ ++ l₂ ∧ Path selection l₁ (.done (some u))

/-- The handler has selected `u` and has not recorded the session. -/
def Standing (l : Acts) (u : SocketAddr) : Prop :=
  Selected l u ∧ ∀ s v a, ⟨.sessionInsert s v a, ()⟩ ∉ l

lemma Selected.unique {l : Acts} {u v : SocketAddr} (hu : Selected l u) (hv : Selected l v) :
    u = v := by
  obtain ⟨l₁, l₂, rfl, hp⟩ := hu
  obtain ⟨l₁', l₂', hl, hp'⟩ := hv
  simpa using (hp.done_unique hp' hl).2

lemma Selected.ne_nil {l : Acts} {u : SocketAddr} (h : Selected l u) : l ≠ [] := by
  rintro rfl
  obtain ⟨l₁, l₂, hl, hp⟩ := h
  obtain ⟨rfl, rfl⟩ := List.append_eq_nil_iff.mp hl.symm
  cases path_nil_iff.mp hp

/-- With its next act a handler has selected before, or selects. -/
lemma selected_snoc_iff {l : Acts} {a : Act Op.Res} {u : SocketAddr} :
    Selected (l ++ [a]) u ↔ Selected l u ∨ Path selection (l ++ [a]) (.done (some u)) := by
  constructor
  · rintro ⟨l₁, l₂, hl, hp⟩
    rcases List.eq_nil_or_concat l₂ with rfl | ⟨l₂, b, rfl⟩
    · rw [List.append_nil] at hl
      exact .inr (hl ▸ hp)
    · rw [List.concat_eq_append, ← List.append_assoc] at hl
      exact .inl ⟨l₁, l₂, (List.append_inj' hl rfl).1, hp⟩
  · rintro (⟨l₁, l₂, rfl, hp⟩ | hp)
    · exact ⟨l₁, l₂ ++ [a], by simp, hp⟩
    · exact ⟨_, [], by simp, hp⟩

lemma not_selected_of_path {l : Acts} {a : Act Op.Res} {u v : SocketAddr}
    (hp : Path selection (l ++ [a]) (.done (some u))) : ¬Selected l v := by
  rintro ⟨l₁, l₂, rfl, hp'⟩
  have hl : l₁ ++ (l₂ ++ [a]) = (l₁ ++ l₂ ++ [a]) ++ [] := by simp
  have hlen := congrArg List.length (hp'.done_unique hp hl).1
  simp only [List.length_append, List.length_cons, List.length_nil] at hlen
  omega

lemma leastSessionsLoop_counts (bs : List UpfBackend) (n : ℕ) (sel : Option SocketAddr) :
    Only (fun o => ∃ v, o = .sessionCountByUpf v) (leastSessionsLoop bs n sel) := by
  induction bs generalizing n sel with
  | nil => trivial
  | cons b bs ih =>
    simp only [leastSessionsLoop, Prog.call_bind, only_act]
    refine ⟨⟨b.addr, rfl⟩, fun m => ?_⟩
    split <;> exact ih _ _

/-- Under the least-sessions strategy, a selection ends with the counts of its loop. -/
lemma selection_path {l : Acts} {u : SocketAddr} (hp : Path selection l (.done (some u)))
    (hstrategy : ∀ st, ⟨.poolStrategy, st⟩ ∈ l → st = .leastSessions) :
    ∃ x bs y, l = x ++ y ∧ y ≠ [] ∧ ⟨.poolHealthyBackends, bs⟩ ∈ x ∧
      Path (leastSessionsLoop bs usizeMax none) y (.done (some u)) := by
  cases hp with | cons r hp =>
  cases hp with | cons r hp =>
  cases hp with | cons st hp =>
  obtain rfl : st = .leastSessions := hstrategy st (by simp)
  cases hp with | @cons _ _ y _ bs hp =>
  cases bs with
  | nil =>
    obtain ⟨_, hu⟩ := path_done_iff.mp hp
    cases hu
  | cons b bs =>
    refine ⟨_ :: _ :: _ :: [⟨.poolHealthyBackends, b :: bs⟩], b :: bs, y, rfl, ?_, by simp, hp⟩
    rintro rfl
    cases path_nil_iff.mp hp

section Establishment

variable {d : Datagram} {s : UInt64} {q : UInt32}

lemma Op.not_insert_of_relay {o : Op} (ho : o.isRelay = true) (s : UInt64) (v a : SocketAddr) :
    o ≠ .sessionInsert s v a := by
  rintro rfl
  cases ho

/-- A session is recorded for the UPF that was selected, and where one was selected the
handler returns only behind the record. -/
lemma establishment_standing (hd : d.header = some ⟨.sessionEstablishmentRequest, some s, q⟩) :
    Guarded (fun l o => ∀ s' u a, o = .sessionInsert s' u a → Standing l u)
      (fun _ l => ∀ u, ¬Standing l u) (handleMessage d) [] := by
  have hsel : Guarded (fun l o => ∀ s' u a, o = .sessionInsert s' u a → Standing l u)
      (fun r l => Path selection l (.done r)) selection [] := by
    refine (selection_quiet.guarded_path ?_ []).mono (fun _ _ h => h) ?_
    · rintro l o ho s' u a rfl
      cases ho
    · rintro r l ⟨x, rfl, hx⟩
      exact hx
  rw [handleMessage_establishment hd, guarded_bind]
  apply hsel.mono (fun _ _ h => h)
  intro r l hl
  cases r with
  | none =>
    rintro u ⟨⟨l₁, l₂, hl', hp⟩, _⟩
    have hsplit : l ++ [] = l₁ ++ l₂ := by rw [List.append_nil, hl']
    cases (hl.done_unique hp hsplit).2
  | some u =>
    refine ⟨by simp, fun _ => ⟨by simp, fun _ => ⟨?_, fun _ => ?_⟩⟩⟩
    · intro s' v a he
      obtain ⟨rfl, rfl, rfl⟩ : s = s' ∧ u = v ∧ d.src = a := by simpa using he
      refine ⟨⟨l, _, List.append_assoc _ _ _, hl⟩, fun s'' v a hm => ?_⟩
      simp only [List.mem_append, List.mem_singleton, Act.mk.injEq, reduceCtorEq, false_and,
        or_false] at hm
      exact absurd (hl.only selection_quiet _ hm) (by simp [Op.isQuiet])
    · refine guarded_of_only (forwardRequest_only d.data d.src q (.single u))
        (fun l => ⟨.sessionInsert s u d.src, ()⟩ ∈ l) (by simp) ?_ ?_
      · intro l o hl ho
        exact ⟨fun s' v a he => absurd he (Op.not_insert_of_relay ho s' v a),
          fun r => List.mem_append_left _ hl⟩
      · intro _ l hl v hv
        exact hv.2 _ _ _ hl

end Establishment

/-! ### Runs of establishment requests -/

/-- A run of establishment requests for distinct sessions, over a fixed pool of eligible
backends that serve no session at first. -/
structure Establishments (p₀ : Proxy) (hist : History) : Prop where
  unused : p₀.sessionTable = Table.empty
  strategy : p₀.upfPool.strategy = .leastSessions
  eligible : ∀ b ∈ p₀.upfPool.backends, b.health.eligible = true
  fixed : poolCalls hist = []
  requests : ∀ i d, .recv i d ∈ hist →
    ∃ s q, d.header = some ⟨.sessionEstablishmentRequest, some s, q⟩
  distinct : ∀ i j d d' s, .recv i d ∈ hist → .recv j d' ∈ hist → Carries d s → Carries d' s →
    i = j

/-- While a handler counts sessions, no other one records a session. -/
def CountsAtOnce (hist : History) : Prop :=
  ∀ x i v m pre y v' m' pre' z, hist =
      x ++ .act i ⟨.sessionCountByUpf v, m⟩ pre :: (y ++ .act i ⟨.sessionCountByUpf v', m'⟩ pre' :: z) →
    ∀ j s u a, j ≠ i → ⟨.sessionInsert s u a, ()⟩ ∉ acts j y

/-- At no time do more than `k` handlers stand between their selection and their record. -/
def AtMostStanding (k : ℕ) (hist : History) : Prop :=
  ∀ x y, hist = x ++ y → ∀ I : Finset ℕ, (∀ i ∈ I, ∃ u, Standing (acts i x) u) → I.card ≤ k

section Runs

variable {p₀ : Proxy} {hist h₁ h₂ : History} {c : Config Op.Res Proxy Datagram} {i : ℕ}
  {u : SocketAddr} {a : Act Op.Res} {pre : Proxy} {j k : ℕ}

lemma Establishments.of_append (h : Establishments p₀ (h₁ ++ h₂)) : Establishments p₀ h₁ where
  unused := h.unused
  strategy := h.strategy
  eligible := h.eligible
  fixed := by
    have hfixed := h.fixed
    rw [poolCalls, List.filterMap_append] at hfixed
    exact (List.append_eq_nil_iff.mp hfixed).1
  requests := fun i d hd => h.requests i d (List.mem_append_left _ hd)
  distinct := fun i j d d' s hd hd' =>
    h.distinct i j d d' s (List.mem_append_left _ hd) (List.mem_append_left _ hd')

lemma CountsAtOnce.of_append (h : CountsAtOnce (h₁ ++ h₂)) : CountsAtOnce h₁ := by
  rintro x i v m pre y v' m' pre' z rfl
  exact h x i v m pre y v' m' pre' (z ++ h₂) (by simp)

lemma AtMostStanding.of_append (h : AtMostStanding k (h₁ ++ h₂)) : AtMostStanding k h₁ := by
  rintro x y rfl
  exact h x (y ++ h₂) (by simp)

lemma Establishments.standing {s : UInt64} {a : SocketAddr} {pre : Proxy}
    (h : Establishments p₀ (h₁ ++ .act i ⟨.sessionInsert s u a, ()⟩ pre :: h₂))
    (hr : Run proxy p₀ (h₁ ++ .act i ⟨.sessionInsert s u a, ()⟩ pre :: h₂) c) :
    Standing (acts i h₁) u := by
  obtain ⟨d, hd, _⟩ := conduct_of_act hr
  obtain ⟨s', q, hhd⟩ := h.requests i d (List.mem_append_left _ hd)
  obtain ⟨c₁, c₂, hr₁, hs, _⟩ := hr.split
  cases hs with
  | act _ d' o k w hj =>
    obtain rfl := hr₁.recv_unique hd (hr₁.recv_mem hj)
    exact ((establishment_standing hhd).path (hr₁.path hj)).1 s u a rfl

lemma Establishments.not_remove (h : Establishments p₀ hist) (hr : Run proxy p₀ hist c)
    (s : UInt64) : ⟨.sessionRemove s, ()⟩ ∉ acts i hist := by
  intro hm
  obtain ⟨x, pre, y, rfl⟩ := exists_split_of_mem_acts hm
  obtain ⟨d, hd, hh, hhd, _, hdel, _⟩ := conduct_of_act hr
  obtain ⟨s', q, hest⟩ := h.requests i d (List.mem_append_left _ hd)
  rw [hhd, Option.some.injEq] at hest
  rw [hest] at hdel
  cases hdel

lemma Establishments.fresh {s : UInt64} {a : SocketAddr} {pre : Proxy}
    (h : Establishments p₀ (h₁ ++ .act i ⟨.sessionInsert s u a, ()⟩ pre :: h₂))
    (hr : Run proxy p₀ (h₁ ++ .act i ⟨.sessionInsert s u a, ()⟩ pre :: h₂) c) :
    pre.sessionTable.get s = none := by
  by_contra hne
  obtain ⟨c₁, w, hr₁, rfl, _⟩ := act_exec hr
  obtain ⟨info, hget⟩ := Option.ne_none_iff_exists'.mp hne
  obtain ⟨j, hins⟩ := session_origin h.unused hr₁
    (u := info.upfAddr) (a := info.smfAddr) (s := s) (by simp [SessionTable.lookupFull, hget])
  obtain ⟨d, hd, hh, hhd, hs, _⟩ := conduct_of_act hr
  have hij : j = i := by
    obtain ⟨x, pre, y, rfl⟩ := exists_split_of_mem_acts hins
    obtain ⟨d', hd', hh', hhd', hs', _⟩ := conduct_of_act hr₁
    exact h.distinct j i d' d s (by simp [hd']) (List.mem_append_left _ hd) ⟨hh', hhd', hs'⟩
      ⟨hh, hhd, hs⟩
  subst hij
  exact (h.standing hr).2 _ _ _ hins

/-- The session table stays as a count has found it while no session is recorded. -/
lemma Establishments.table_kept {v : SocketAddr} {m : ℕ} {pre : Proxy}
    (h : Establishments p₀ (h₁ ++ .act i ⟨.sessionCountByUpf v, m⟩ pre :: h₂))
    (hr : Run proxy p₀ (h₁ ++ .act i ⟨.sessionCountByUpf v, m⟩ pre :: h₂) c)
    (hno : ∀ j s u a, ⟨.sessionInsert s u a, ()⟩ ∉ acts j h₂) :
    c.shared.sessionTable = pre.sessionTable := by
  induction h₂ using List.reverseRecOn generalizing c with
  | nil =>
    obtain ⟨c₁, hr₁, hs⟩ := run_snoc_iff.mp hr
    cases hs
    rfl
  | append_singleton l e ih =>
    rw [← List.cons_append, ← List.append_assoc] at h hr
    have hnot := fun j => h.not_remove (i := j) hr
    obtain ⟨c₁, hr₁, hs⟩ := run_snoc_iff.mp hr
    rw [← ih h.of_append hr₁ fun j s u a hm => hno j s u a (by simp [hm])]
    cases hs with
    | recv d => rfl
    | env e => simp [proxy]
    | act j d o k w hj =>
      cases o with
      | sessionInsert s u a => exact absurd (by simp) (hno j s u a)
      | sessionRemove s =>
        refine absurd ?_ (hnot j s)
        rw [acts_append]
        exact List.mem_append_right _ (by simp)
      | _ => rfl

lemma Establishments.pool (h : Establishments p₀ hist) (hr : Run proxy p₀ hist c) :
    c.shared.upfPool.strategy = .leastSessions ∧
    c.shared.upfPool.healthyBackends = p₀.upfPool.backends := by
  refine ⟨by rw [run_strategy hr, h.strategy], ?_⟩
  have hbackends : c.shared.upfPool.backends = p₀.upfPool.backends := by
    rw [(run_backends hr).1, h.fixed]
    rfl
  rw [UpfPool.healthyBackends, hbackends, List.filter_eq_self]
  exact h.eligible

lemma Establishments.act_found {b : Act Op.Res} (h : Establishments p₀ hist)
    (hr : Run proxy p₀ hist c) (hb : b ∈ acts i hist) :
    ∃ x y pre, hist = x ++ .act i b pre :: y ∧ pre.upfPool.strategy = .leastSessions ∧
      pre.upfPool.healthyBackends = p₀.upfPool.backends ∧ ∃ w, b.res = (exec b.op w pre).1 := by
  obtain ⟨x, pre, y, hsplit⟩ := exists_split_of_mem_acts hb
  rw [hsplit] at h hr
  obtain ⟨c₁, w, hr₁, rfl, hres⟩ := act_exec hr
  exact ⟨x, y, _, hsplit, (h.of_append.pool hr₁).1, (h.of_append.pool hr₁).2, w, hres⟩

/-- What a handler has counted since it selects is still right at its last count, because
nothing is recorded in between. -/
lemma Establishments.counts_kept {v₀ v : SocketAddr} {m₀ m : ℕ} {pre : Proxy}
    {e : Event Op.Res Proxy Datagram Env} (he : e = .act i ⟨.sessionCountByUpf v₀, m₀⟩ pre)
    (h : Establishments p₀ (hist ++ [e])) (hcount : CountsAtOnce (hist ++ [e]))
    (hr : Run proxy p₀ (hist ++ [e]) c)
    (hidle : ∀ s u a, ⟨.sessionInsert s u a, ()⟩ ∉ acts i hist)
    (hm : ⟨.sessionCountByUpf v, m⟩ ∈ acts i (hist ++ [e])) :
    m = pre.sessionTable.countByUpf v := by
  subst he
  obtain ⟨c₀, w₀, hr₀, rfl, hres₀⟩ := act_exec hr
  obtain ⟨x, y, pre', hsplit, _, _, w, hres⟩ := h.act_found hr hm
  obtain rfl : m = pre'.sessionTable.countByUpf v := hres
  rcases List.eq_nil_or_concat y with rfl | ⟨y, e, rfl⟩
  · obtain ⟨_, he⟩ := List.append_inj' hsplit rfl
    cases he
    rfl
  · rw [List.concat_eq_append, ← List.cons_append, ← List.append_assoc] at hsplit
    obtain ⟨rfl, he⟩ := List.append_inj' hsplit rfl
    cases he
    rw [h.of_append.table_kept hr₀]
    intro j s u a hins
    by_cases hj : j = i
    · subst hj
      refine hidle s u a ?_
      rw [acts_append, acts_act_self]
      exact List.mem_append_right _ (List.mem_cons_of_mem _ hins)
    · exact hcount x i v (pre'.sessionTable.countByUpf v) pre' y v₀ m₀ c₀.shared [] (by simp)
        j s u a hj hins

/-- Whoever selects a backend selects one with the fewest sessions. -/
lemma Establishments.selected_least {a : Act Op.Res} {pre : Proxy}
    (h : Establishments p₀ (hist ++ [.act i a pre])) (hcount : CountsAtOnce (hist ++ [.act i a pre]))
    (hr : Run proxy p₀ (hist ++ [.act i a pre]) c)
    (hp : Path selection (acts i hist ++ [a]) (.done (some u))) :
    ∀ v ∈ p₀.upfPool.addrs, pre.sessionTable.countByUpf u ≤ pre.sessionTable.countByUpf v := by
  have hacts : acts i (hist ++ [.act i a pre]) = acts i hist ++ [a] := by simp
  obtain ⟨x, bs, y, hl, hne, hbs, hloop⟩ := selection_path hp (by
    intro st hst
    obtain ⟨_, _, pre', _, hpool, _, w, hres⟩ := h.act_found hr (hacts ▸ hst)
    exact hres.trans hpool)
  obtain rfl : bs = p₀.upfPool.backends := by
    have hmem : ⟨.poolHealthyBackends, bs⟩ ∈ acts i hist ++ [a] := by
      rw [hl]
      exact List.mem_append_left _ hbs
    obtain ⟨_, _, pre', _, _, hpool, w, hres⟩ := h.act_found hr (hacts ▸ hmem)
    exact hres.trans hpool
  -- the last act of the selection is a count
  obtain ⟨y, b, rfl⟩ := (List.eq_nil_or_concat y).resolve_left hne
  rw [List.concat_eq_append] at hloop hl
  obtain rfl : a = b := by
    rw [← List.append_assoc] at hl
    simpa using (List.append_inj' hl rfl).2
  obtain ⟨v₀, hv₀⟩ := hloop.only (leastSessionsLoop_counts _ _ _) a (by simp)
  obtain ⟨o, m₀⟩ := a
  obtain rfl : o = .sessionCountByUpf v₀ := hv₀
  have hidle : ∀ s u a, ⟨.sessionInsert s u a, ()⟩ ∉ acts i hist := by
    intro s u a hins
    cases hp.only selection_quiet ⟨.sessionInsert s u a, ()⟩ (List.mem_append_left _ hins)
  have hcounts : ∀ v m, ⟨.sessionCountByUpf v, m⟩ ∈ y ++ [⟨.sessionCountByUpf v₀, m₀⟩] →
      m = pre.sessionTable.countByUpf v := by
    intro v m hm
    refine Establishments.counts_kept rfl h hcount hr hidle ?_
    rw [hacts, hl]
    exact List.mem_append_right _ hm
  have hleast := leastSessions_least (leastSessionsLoop_path hloop hcounts).symm (by simp)
  intro v hv
  obtain ⟨b, hb, rfl⟩ := List.mem_map.mp hv
  exact hleast.2 b hb

/-! ### The run seen from the session counts -/

/-- How the sessions are spread: those recorded, and those selected but not recorded. -/
noncomputable def spread (hist : History) (t : SessionTable) : LeastLoaded.Load SocketAddr :=
  ⟨t.countByUpf, fun u => {i | Standing (acts i hist) u}.ncard⟩

lemma standing_finite (hr : Run proxy p₀ hist c) (u : SocketAddr) :
    {i | Standing (acts i hist) u}.Finite := by
  apply (Finset.range c.tasks.length).finite_toSet.subset
  intro i hi
  obtain ⟨a, ha⟩ := List.exists_mem_of_ne_nil _ hi.1.ne_nil
  obtain ⟨pre, hp⟩ := mem_acts_iff.mp ha
  simpa using hr.act_lt hp

lemma AtMostStanding.underway_le (hk : AtMostStanding k hist) (hr : Run proxy p₀ hist c)
    (t : SessionTable) (u : SocketAddr) : (spread hist t).underway u ≤ k := by
  simp only [spread]
  rw [Set.ncard_eq_toFinset_card _ (standing_finite hr u)]
  apply hk hist [] (by simp)
  intro i hi
  exact ⟨u, by simpa using hi⟩

lemma spread_insert {s : UInt64} {a : SocketAddr} {pre : Proxy} (t : SessionTable) (now : Instant)
    (hstanding : Standing (acts i hist) u) (hfresh : t.get s = none) :
    spread (hist ++ [.act i ⟨.sessionInsert s u a, ()⟩ pre]) (t.insert now s u a) =
      (spread hist t).arrive u := by
  have hset (v : SocketAddr) :
      {j | Standing (acts j (hist ++ [.act i ⟨.sessionInsert s u a, ()⟩ pre])) v} =
        {j | Standing (acts j hist) v} \ {i} := by
    ext j
    by_cases hj : i = j
    · subst hj
      have hnot : ¬Standing (acts i hist ++ [⟨.sessionInsert s u a, ()⟩]) v :=
        fun h => h.2 s u a (by simp)
      simp [hnot]
    · simp [acts_act_of_ne hj, Ne.symm hj]
  apply LeastLoaded.Load.ext
  · funext v
    have hcount := Table.countIf_insert_of_get_none t ⟨u, a, now, now⟩
      (fun info => info.upfAddr = v) hfresh
    by_cases hv : v = u
    · subst hv
      simpa [spread, LeastLoaded.Load.arrive, SessionTable.countByUpf, SessionTable.insert] using hcount
    · simpa [spread, LeastLoaded.Load.arrive, SessionTable.countByUpf, SessionTable.insert, hv,
        Ne.symm hv] using hcount
  · funext v
    simp only [spread, LeastLoaded.Load.arrive, hset]
    by_cases hv : v = u
    · subst hv
      have hmem : i ∈ {j | Standing (acts j hist) v} := hstanding
      rw [Function.update_self, Set.ncard_sdiff_singleton_of_mem hmem]
    · rw [Function.update_of_ne hv, Set.sdiff_singleton_eq_self]
      exact fun h => hv (h.1.unique hstanding.1)

/-- The act with which a handler selects assigns a session. -/
lemma spread_select {a : Act Op.Res} {pre : Proxy} (t : SessionTable) (hr : Run proxy p₀ hist c)
    (hp : Path selection (acts i hist ++ [a]) (.done (some u))) :
    spread (hist ++ [.act i a pre]) t = (spread hist t).assign u := by
  have hquiet : ∀ s v a', ⟨.sessionInsert s v a', ()⟩ ∉ acts i hist ++ [a] := by
    intro s v a' hm
    cases hp.only selection_quiet _ hm
  have hset (v : SocketAddr) (j : ℕ) : Standing (acts j (hist ++ [.act i a pre])) v ↔
      Standing (acts j hist) v ∨ j = i ∧ v = u := by
    by_cases hj : i = j
    · subst hj
      rw [acts_append, acts_act_self, acts_nil, Standing, selected_snoc_iff]
      have hnot := not_selected_of_path (v := v) hp
      constructor
      · rintro ⟨hsel | hp', _⟩
        · exact absurd hsel hnot
        · exact .inr ⟨rfl, by simpa using hp'.functional hp⟩
      · rintro (hst | ⟨_, rfl⟩)
        · exact absurd hst.1 hnot
        · exact ⟨.inr hp, hquiet⟩
    · simp [acts_act_of_ne hj, Ne.symm hj]
  apply LeastLoaded.Load.ext
  · rfl
  · funext v
    simp only [spread, LeastLoaded.Load.assign, hset]
    by_cases hv : v = u
    · subst hv
      have hins : {j | Standing (acts j hist) v ∨ j = i ∧ v = v} =
          insert i {j | Standing (acts j hist) v} := by
        ext j
        simp [or_comm]
      rw [Function.update_self, hins, Set.ncard_insert_of_notMem _ (standing_finite hr v)]
      exact fun h => not_selected_of_path hp h.1
    · simp [hv]

lemma spread_other {a : Act Op.Res} {pre : Proxy} (t : SessionTable)
    (hrecord : ∀ s v b, a ≠ ⟨.sessionInsert s v b, ()⟩)
    (hselect : ∀ u, ¬Path selection (acts i hist ++ [a]) (.done (some u))) :
    spread (hist ++ [.act i a pre]) t = spread hist t := by
  have hset (v : SocketAddr) (j : ℕ) : Standing (acts j (hist ++ [.act i a pre])) v ↔
      Standing (acts j hist) v := by
    by_cases hj : i = j
    · subst hj
      have hins : ∀ s v b, ⟨.sessionInsert s v b, ()⟩ ≠ a := fun s v b => (hrecord s v b).symm
      rw [acts_append, acts_act_self, acts_nil, Standing, selected_snoc_iff]
      simp [hselect, hins, Standing]
    · simp [acts_act_of_ne hj]
  simp only [spread, hset]

/-- Every step of a run of establishment requests is a step of placing work, or none. -/
lemma Establishments.refines {e : Event Op.Res Proxy Datagram Env}
    {c' : Config Op.Res Proxy Datagram} (h : Establishments p₀ (hist ++ [e]))
    (hcount : CountsAtOnce (hist ++ [e])) (hk : AtMostStanding k (hist ++ [e]))
    (hr : Run proxy p₀ hist c) (hs : Step proxy c e c') :
    Relation.ReflTransGen (LeastLoaded.Step {u | u ∈ p₀.upfPool.addrs} k)
      (spread hist c.shared.sessionTable) (spread (hist ++ [e]) c'.shared.sessionTable) := by
  have hr' := hr.snoc hs
  cases hs with
  | recv d =>
    rw [show spread (hist ++ [.recv c.tasks.length d]) c.shared.sessionTable =
      spread hist c.shared.sessionTable by simp [spread]]
  | env e =>
    rw [show spread (hist ++ [.env e c.shared]) (proxy.env e c.shared).sessionTable =
      spread hist c.shared.sessionTable by simp [spread, proxy]]
  | act i d o f w hi =>
    by_cases hselect : ∃ u, Path selection (acts i hist ++ [⟨o, (proxy.exec o w c.shared).1⟩])
        (.done (some u))
    · obtain ⟨u, hp⟩ := hselect
      have hquiet := (Op.not_writes_of_quiet (hp.only selection_quiet
        ⟨o, (proxy.exec o w c.shared).1⟩ (by simp))).1
      have htable : (proxy.exec o w c.shared).2.sessionTable = c.shared.sessionTable := by
        cases o <;> first | rfl | cases hquiet
      have hunderway := hk.underway_le hr' c.shared.sessionTable u
      rw [spread_select _ hr hp] at hunderway
      rw [htable, spread_select _ hr hp]
      apply Relation.ReflTransGen.single
      apply LeastLoaded.Step.assign
      · exact h.selected_least hcount hr' hp
      · simpa [LeastLoaded.Load.assign, Nat.succ_le_iff] using hunderway
    · rw [not_exists] at hselect
      cases o with
      | sessionInsert s u a =>
        have hstanding := h.standing hr'
        rw [show (proxy.exec (.sessionInsert s u a) w c.shared).2.sessionTable =
            c.shared.sessionTable.insert c.shared.now s u a from rfl,
          spread_insert _ _ hstanding (h.fresh hr')]
        apply Relation.ReflTransGen.single
        apply LeastLoaded.Step.arrive
        exact (Set.ncard_pos (standing_finite hr u)).mpr ⟨i, hstanding⟩
      | sessionRemove s =>
        refine absurd ?_ (h.not_remove (i := i) hr' s)
        rw [acts_append]
        exact List.mem_append_right _ (by simp)
      | _ =>
        rw [spread_other _ (by simp) hselect]
        exact Relation.ReflTransGen.refl

/-- A run of establishment requests places sessions on least loaded backends. -/
theorem Establishments.placed (h : Establishments p₀ hist) (hcount : CountsAtOnce hist)
    (hk : AtMostStanding k hist) (hr : Run proxy p₀ hist c) :
    Relation.ReflTransGen (LeastLoaded.Step {u | u ∈ p₀.upfPool.addrs} k) LeastLoaded.Load.zero
      (spread hist c.shared.sessionTable) := by
  induction hr with
  | nil =>
    have hzero : spread [] p₀.sessionTable = LeastLoaded.Load.zero := by
      have hnot (u : SocketAddr) : ¬Standing [] u := fun hs => hs.1.ne_nil rfl
      apply LeastLoaded.Load.ext
      · funext u
        rw [h.unused]
        rfl
      · funext u
        simp [spread, LeastLoaded.Load.zero, hnot]
    rw [hzero]
  | snoc hr hs ih =>
    exact (ih h.of_append hcount.of_append hk.of_append).trans (h.refines hcount hk hr hs)

/-! ### One at a time -/

/-- Every request is received after the handlers of all earlier ones have returned. -/
def OneAtATime (p₀ : Proxy) (hist : History) : Prop :=
  ∀ x j d y, hist = x ++ .recv j d :: y → ∀ c, Run proxy p₀ x c → ∀ i < j, Finished c i

lemma acts_of_finished {c₁ : Config Op.Res Proxy Datagram} (hdone : Finished c₁ i)
    (hr₁ : Run proxy p₀ h₁ c₁) (hr : Run proxy p₀ (h₁ ++ h₂) c) : acts i h₂ = [] := by
  obtain ⟨d, ht⟩ := hdone
  have hd := hr₁.recv_mem ht
  obtain ⟨p, hp, hpath⟩ := hr.handler_path (List.mem_append_left _ hd)
  rw [acts_append] at hpath
  obtain ⟨p', hp₁, hp₂⟩ := path_append_iff.mp hpath
  obtain rfl := hp₁.functional (hr₁.path ht)
  exact (path_done_iff.mp hp₂).1

lemma OneAtATime.acts_nil (ho : OneAtATime p₀ (h₁ ++ .act i a pre :: h₂))
    (hr : Run proxy p₀ (h₁ ++ .act i a pre :: h₂) c) (hj : j < i) : acts j h₂ = [] := by
  obtain ⟨d, hd, _⟩ := conduct_of_act hr
  obtain ⟨x, y, rfl⟩ := List.append_of_mem hd
  have hsplit : x ++ .recv i d :: y ++ .act i a pre :: h₂ =
      x ++ .recv i d :: (y ++ .act i a pre :: h₂) := by simp
  rw [hsplit] at hr ho
  obtain ⟨c₁, hr₁⟩ := hr.of_append
  have hnil := acts_of_finished (ho x i d _ rfl c₁ hr₁ j hj) hr₁ hr
  rw [acts_recv, acts_append] at hnil
  have hrest := (List.append_eq_nil_iff.mp hnil).2
  rw [List.eq_nil_iff_forall_not_mem] at hrest ⊢
  intro b hb
  obtain ⟨pre', hb⟩ := mem_acts_iff.mp hb
  exact hrest b (mem_acts_iff.mpr ⟨pre', List.mem_cons_of_mem _ hb⟩)

/-- Handlers that run one at a time count at once. -/
lemma OneAtATime.countsAtOnce (ho : OneAtATime p₀ hist) (hr : Run proxy p₀ hist c) :
    CountsAtOnce hist := by
  rintro x i v m pre y v' m' pre' z rfl j s u a hj hins
  rcases Nat.lt_or_gt_of_ne hj with hlt | hlt
  · have hnil := ho.acts_nil hr hlt
    rw [acts_append, List.append_eq_nil_iff] at hnil
    rw [hnil.1] at hins
    cases hins
  · obtain ⟨y₁, pre'', y₂, rfl⟩ := exists_split_of_mem_acts hins
    have hsplit : x ++ .act i ⟨.sessionCountByUpf v, m⟩ pre ::
        (y₁ ++ .act j ⟨.sessionInsert s u a, ()⟩ pre'' :: y₂ ++
          .act i ⟨.sessionCountByUpf v', m'⟩ pre' :: z) =
        (x ++ .act i ⟨.sessionCountByUpf v, m⟩ pre :: y₁) ++
          .act j ⟨.sessionInsert s u a, ()⟩ pre'' ::
            (y₂ ++ .act i ⟨.sessionCountByUpf v', m'⟩ pre' :: z) := by simp
    rw [hsplit] at hr ho
    have hnil := ho.acts_nil hr hlt
    rw [acts_append, acts_act_self] at hnil
    simp at hnil

/-- Of handlers that run one at a time, at most one stands between its selection and its
record. -/
lemma OneAtATime.atMostStanding (ho : OneAtATime p₀ hist) (h : Establishments p₀ hist)
    (hr : Run proxy p₀ hist c) : AtMostStanding 1 hist := by
  -- an earlier handler has returned, so it has recorded what it selected
  have hearlier (x y : History) (hxy : hist = x ++ y) (i j : ℕ) (u v : SocketAddr)
      (hi : Standing (acts i x) u) (hj : Standing (acts j x) v) : ¬i < j := by
    intro hij
    subst hxy
    obtain ⟨b, hb⟩ := List.exists_mem_of_ne_nil _ hj.1.ne_nil
    obtain ⟨x₁, pre, x₂, rfl⟩ := exists_split_of_mem_acts hb
    obtain ⟨c₂, hr₂⟩ := hr.of_append
    obtain ⟨d, hd, _⟩ := conduct_of_act hr₂
    obtain ⟨w₁, w₂, rfl⟩ := List.append_of_mem hd
    have hsplit : w₁ ++ .recv j d :: w₂ ++ .act j b pre :: x₂ =
        w₁ ++ .recv j d :: (w₂ ++ .act j b pre :: x₂) := by simp
    rw [hsplit] at hr₂ hi hr ho h
    obtain ⟨c₁, hr₁⟩ := hr₂.of_append
    have hdone := ho w₁ j d (w₂ ++ .act j b pre :: x₂ ++ y) (by simp) c₁ hr₁ i hij
    have hnil := acts_of_finished hdone hr₁ hr₂
    obtain ⟨dᵢ, ht⟩ := hdone
    have hdᵢ := hr₁.recv_mem ht
    obtain ⟨s, q, hhd⟩ := h.requests i dᵢ (by simp [hdᵢ])
    rw [acts_append, hnil, List.append_nil] at hi
    exact (establishment_standing hhd).path (hr₁.path ht) u hi
  intro x y hxy I hI
  rw [Finset.card_le_one]
  intro i hi j hj
  obtain ⟨u, hu⟩ := hI i hi
  obtain ⟨v, hv⟩ := hI j hj
  have hij := hearlier x y hxy i j u v hu hv
  have hji := hearlier x y hxy j i v u hv hu
  omega

/-- Bounded imbalance of the least-sessions strategy: however establishment requests are
interleaved, two backends differ by no more sessions than handlers stand between their
selection and their record at any time, and by one session at most if requests are handled
one at a time. -/
theorem least_sessions_balanced (hr : Run proxy p₀ hist c) (h : Establishments p₀ hist) :
    (∀ k, CountsAtOnce hist → AtMostStanding k hist →
      ∀ u ∈ p₀.upfPool.addrs, ∀ v ∈ p₀.upfPool.addrs,
        c.shared.sessionTable.countByUpf u ≤ c.shared.sessionTable.countByUpf v + k) ∧
    (OneAtATime p₀ hist → ∀ u ∈ p₀.upfPool.addrs, ∀ v ∈ p₀.upfPool.addrs,
      c.shared.sessionTable.countByUpf u ≤ c.shared.sessionTable.countByUpf v + 1) := by
  have hbalanced (k : ℕ) (hcount : CountsAtOnce hist) (hk : AtMostStanding k hist)
      (u : SocketAddr) (hu : u ∈ p₀.upfPool.addrs) (v : SocketAddr) (hv : v ∈ p₀.upfPool.addrs) :
      c.shared.sessionTable.countByUpf u ≤ c.shared.sessionTable.countByUpf v + k :=
    (LeastLoaded.balanced_of_steps (h.placed hcount hk hr)).arrived_le hu hv
  exact ⟨hbalanced, fun ho => hbalanced 1 (ho.countsAtOnce hr) (ho.atMostStanding h hr)⟩

end Runs

lemma establishments_two {hist : History}
    (hrecv : ∀ i d, .recv i d ∈ hist →
      i = 0 ∧ d = message .sessionEstablishmentRequest (some 7) 1 smfA ∨
        i = 1 ∧ d = message .sessionEstablishmentRequest (some 8) 2 smfA)
    (hpool : poolCalls hist = []) : Establishments (Proxy.new [upfX, upfY] .leastSessions) hist := by
  refine ⟨rfl, rfl, by decide, hpool, fun i d hd => ?_, ?_⟩
  · rcases hrecv i d hd with ⟨_, rfl⟩ | ⟨_, rfl⟩
    · exact ⟨7, 1, rfl⟩
    · exact ⟨8, 2, rfl⟩
  · rintro i j d d' s hd hd' ⟨e, he, hs⟩ ⟨e', he', hs'⟩
    rcases hrecv i d hd with ⟨rfl, rfl⟩ | ⟨rfl, rfl⟩ <;>
      rcases hrecv j d' hd' with ⟨rfl, rfl⟩ | ⟨rfl, rfl⟩
    · rfl
    · cases he
      cases he'
      have hseid : some (7 : UInt64) = some 8 := hs.trans hs'.symm
      exact absurd hseid (by decide)
    · cases he
      cases he'
      have hseid : some (8 : UInt64) = some 7 := hs.trans hs'.symm
      exact absurd hseid (by decide)
    · rfl

/-- The handlers of two establishments select a backend before either has recorded its session. -/
def selectedTogether : History × Config Op.Res Proxy Datagram :=
  played [upfX, upfY] .leastSessions
    ([.recv (message .sessionEstablishmentRequest (some 7) 1 smfA),
      .recv (message .sessionEstablishmentRequest (some 8) 2 smfA)] ++
    (List.replicate 13 [.step 0 true, .step 1 true]).flatten)

def isSessionInsert : Event Op.Res Proxy Datagram Env → Bool
  | .act _ ⟨.sessionInsert _ _ _, _⟩ _ => true
  | _ => false

def isSessionCount : Event Op.Res Proxy Datagram Env → Bool
  | .act _ ⟨.sessionCountByUpf _, _⟩ _ => true
  | _ => false

/-- The sessions are counted before any is recorded. -/
lemma countsAtOnce_of_all {hist : History} (n : ℕ)
    (hfirst : (hist.take n).all (fun e => !isSessionInsert e) = true)
    (hlast : (hist.drop n).all (fun e => !isSessionCount e) = true) : CountsAtOnce hist := by
  intro x i v m pre y v' m' pre' z hsplit j s u a _ hins
  obtain ⟨y₁, pre'', y₂, rfl⟩ := exists_split_of_mem_acts hins
  have hsplit' : hist.take n ++ hist.drop n =
      (x ++ .act i ⟨.sessionCountByUpf v, m⟩ pre :: y₁) ++
        .act j ⟨.sessionInsert s u a, ()⟩ pre'' ::
          (y₂ ++ .act i ⟨.sessionCountByUpf v', m'⟩ pre' :: z) := by
    rw [List.take_append_drop, hsplit]
    simp
  rw [List.all_eq_true] at hfirst hlast
  rcases List.append_eq_append_iff.mp hsplit' with ⟨t, _, htail⟩ | ⟨t, hhead, htail⟩
  · have hcount := hlast (.act i ⟨.sessionCountByUpf v', m'⟩ pre') (by rw [htail]; simp)
    simp [isSessionCount] at hcount
  · rcases List.cons_eq_append_iff.mp htail with ⟨_, hdrop⟩ | ⟨t', rfl, _⟩
    · have hcount := hlast (.act i ⟨.sessionCountByUpf v', m'⟩ pre') (by rw [hdrop]; simp)
      simp [isSessionCount] at hcount
    · have hinsert := hfirst (.act j ⟨.sessionInsert s u a, ()⟩ pre'') (by rw [hhead]; simp)
      simp [isSessionInsert] at hinsert

lemma atMostStanding_of_receptions {p₀ : Proxy} {hist : History} {c : Config Op.Res Proxy Datagram}
    (hr : Run proxy p₀ hist c) {k : ℕ} (hk : ∀ z ∈ receptions hist, z.1 < k) :
    AtMostStanding k hist := by
  rintro x y rfl I hI
  rw [← Finset.card_range k]
  apply Finset.card_le_card
  intro i hi
  obtain ⟨u, hu⟩ := hI i hi
  obtain ⟨b, hb⟩ := List.exists_mem_of_ne_nil _ hu.1.ne_nil
  obtain ⟨x₁, pre, x₂, rfl⟩ := exists_split_of_mem_acts hb
  obtain ⟨_, hr₁⟩ := hr.of_append
  obtain ⟨d, hd, _⟩ := conduct_of_act hr₁
  exact Finset.mem_range.mpr (hk (i, d) (mem_receptions_iff.mpr (by simp [hd])))

/-- Two sessions that are established one after the other are spread over two backends; both may be
on one of them if their handlers overlap. -/
theorem least_sessions_balanced_two :
    (∃ h c, Run proxy (Proxy.new [upfX, upfY] .leastSessions) h c ∧
      c.shared.sessionTable.count = 2 ∧
      c.shared.sessionTable.countByUpf upfX ≤ c.shared.sessionTable.countByUpf upfY + 1) ∧
    selectedTogether.2.shared.sessionTable.countByUpf upfX = 2 ∧
      selectedTogether.2.shared.sessionTable.countByUpf upfX ≤
        selectedTogether.2.shared.sessionTable.countByUpf upfY + 2 := by
  let ω : ℕ → Bool := fun _ => true
  let d₀ := message .sessionEstablishmentRequest (some 7) 1 smfA
  let d₁ := message .sessionEstablishmentRequest (some 8) 2 smfA
  let p₀ := Proxy.new [upfX, upfY] .leastSessions
  let p₁ := (run exec (handleMessage d₀) ω p₀).state
  let t₀ : History := trail proxy 0 (handleMessage d₀) ω p₀
  let t₁ : History := trail proxy 1 (handleMessage d₁) ω p₁
  let h : History := ([] ++ .recv 0 d₀ :: t₀) ++ .recv 1 d₁ :: t₁
  have hr : Run proxy p₀ h _ := (Run.nil.handle d₀ ω).handle d₁ ω
  have hsplit {x y : History} {j : ℕ} {d : Datagram} (hxy : h = x ++ .recv j d :: y) :
      x = [] ++ .recv 0 d₀ :: t₀ ∧ j = 1 ∧ d = d₁ ∨ j = 0 ∧ d = d₀ :=
    recv_split_two hxy (recv_notMem_trail _ _ _ _) (recv_notMem_trail _ _ _ _)
  have hest : Establishments p₀ h := by
    refine establishments_two (fun j d hj => ?_) (by decide)
    obtain ⟨x, y, hxy⟩ := List.append_of_mem hj
    exact (hsplit hxy).symm.imp id fun h => h.2
  have hone : OneAtATime p₀ h := by
    intro x j d y hxy c hc i hi
    rcases hsplit hxy with ⟨rfl, rfl, rfl⟩ | ⟨rfl, rfl⟩
    · obtain rfl : i = 0 := by omega
      obtain ⟨p, hp, hpath⟩ := hc.handler_path (i := 0) (m := d₀) (by simp)
      have hacts : acts 0 ([] ++ .recv 0 d₀ :: t₀) = (run exec (handleMessage d₀) ω p₀).acts := by
        simp [t₀, proxy]
      rw [hacts] at hpath
      obtain rfl := hpath.functional (run_path exec (handleMessage d₀) ω p₀)
      exact ⟨d₀, hp⟩
    · omega
  have hr' : Run proxy p₀ selectedTogether.1 selectedTogether.2 := played_run _ _ _
  have hrecv' : receptions selectedTogether.1 = [(0, d₀), (1, d₁)] := rfl
  have hest' : Establishments p₀ selectedTogether.1 := by
    refine establishments_two (fun j d hj => ?_) (by decide +kernel)
    rw [← mem_receptions_iff, hrecv'] at hj
    simpa using hj
  refine ⟨⟨h, _, hr, by decide, ?_⟩, by decide +kernel, ?_⟩
  · exact (least_sessions_balanced hr hest).2 hone upfX (by decide) upfY (by decide)
  · have hcounts : CountsAtOnce selectedTogether.1 :=
      countsAtOnce_of_all 16 (by decide +kernel) (by decide +kernel)
    have hstanding : AtMostStanding 2 selectedTogether.1 :=
      atMostStanding_of_receptions hr' (by rw [hrecv']; decide)
    exact (least_sessions_balanced hr' hest').1 2 hcounts hstanding upfX (by decide) upfY
      (by decide)

end PfcpProxy
