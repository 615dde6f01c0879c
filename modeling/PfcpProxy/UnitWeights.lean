import PfcpProxy.ConcurrentSelection
import PfcpProxy.PoolInvariant

/-!
# Weighted selection with equal weights

No operation of the proxy gives a backend a weight other than one. The cumulative scan then
stops at the backend the index points at, and a proxy with the weighted strategy does step by
step what it does with round robin.
-/

namespace PfcpProxy

open AtomicTasks

/-! ### Unit weights -/

/-- Backends of weight one, few enough for their number to fit in a `u32`. -/
structure Light (bs : List UpfBackend) : Prop where
  weight : ∀ b ∈ bs, b.weight = 1
  length : bs.length < UInt32.size

/-- A pool of such backends that stays below the bound. -/
structure LightPool (p : UpfPool) : Prop where
  light : Light p.backends
  capped : p.maxBackends < UInt32.size

lemma Light.filter {bs : List UpfBackend} (h : Light bs) (P : UpfBackend → Bool) :
    Light (bs.filter P) :=
  ⟨fun b hb => h.weight b (List.mem_of_mem_filter hb),
    (List.length_filter_le _ _).trans_lt h.length⟩

lemma Light.snoc {bs : List UpfBackend} (h : Light bs) (a : SocketAddr)
    (hlen : bs.length + 1 < UInt32.size) : Light (bs ++ [UpfBackend.fresh a]) := by
  constructor
  · intro b hb
    rw [List.mem_append, List.mem_singleton] at hb
    rcases hb with hb | rfl
    · exact h.weight b hb
    · rfl
  · simpa using hlen

lemma Light.setHealth {bs : List UpfBackend} (h : Light bs) (a : SocketAddr) (st : HealthStatus) :
    Light (UpfPool.setHealth a st bs) := by
  have hmap : (UpfPool.setHealth a st bs).map (·.weight) = bs.map (·.weight) := by
    induction bs with
    | nil => rfl
    | cons b bs ih =>
      have hrest : Light bs := ⟨fun b' hb' => h.weight b' (List.mem_cons_of_mem _ hb'),
        (Nat.lt_succ_self _).trans h.length⟩
      unfold UpfPool.setHealth
      split
      · rfl
      · rw [List.map_cons, List.map_cons, ih hrest]
  constructor
  · intro b hb
    have hmem : b.weight ∈ bs.map (·.weight) := hmap ▸ List.mem_map_of_mem hb
    obtain ⟨b', hb', heq⟩ := List.mem_map.mp hmem
    rw [← heq, h.weight b' hb']
  · have hlen := congrArg List.length hmap
    rw [List.length_map, List.length_map] at hlen
    exact hlen ▸ h.length

lemma lightPool_new {backends : List SocketAddr} (strategy : LoadBalancingStrategy)
    (hlen : backends.length < UInt32.size) : LightPool (UpfPool.new backends strategy) := by
  refine ⟨⟨fun b hb => ?_, by simpa [UpfPool.new] using hlen⟩, ?_⟩
  · obtain ⟨a, _, rfl⟩ := List.mem_map.mp hb
    rfl
  · show 64 < UInt32.size
    decide

lemma LightPool.apply {p : UpfPool} (h : LightPool p) (call : PoolCall) :
    LightPool (call.apply p) := by
  refine ⟨?_, by rw [UpfPool.apply_maxBackends]; exact h.capped⟩
  cases call with
  | addBackend a =>
    simp only [PoolCall.apply, UpfPool.addBackend]
    split
    · exact h.light
    · rename_i hroom
      split
      · exact h.light
      · exact h.light.snoc a ((Nat.succ_le_of_lt (Nat.not_le.mp hroom)).trans_lt h.capped)
  | removeBackend a =>
    simp only [PoolCall.apply, UpfPool.removeBackend]
    split
    · exact h.light
    · exact h.light.filter _
  | updateHealth a st => exact h.light.setHealth a st

/-! ### The scan over unit weights -/

lemma weightedScan_unit {bs : List UpfBackend} (h : ∀ b ∈ bs, b.weight = 1) (s k : ℕ) :
    weightedScan (s + k) bs s = (bs[k]?).map (·.addr) := by
  induction bs generalizing s k with
  | nil => simp [weightedScan]
  | cons b bs ih =>
    have hw : b.weight.toNat = 1 := by
      rw [h b (by simp)]
      rfl
    unfold weightedScan
    rw [hw]
    cases k with
    | zero => simp
    | succ k =>
      have hge : ¬s + (k + 1) < s + 1 := by omega
      have hsum : s + (k + 1) = s + 1 + k := by omega
      rw [if_neg hge, hsum, ih (fun b' hb' => h b' (List.mem_cons_of_mem _ hb')),
        List.getElem?_cons_succ]

lemma Light.totalWeight {bs : List UpfBackend} (h : Light bs) :
    (totalWeight bs).toNat = bs.length := by
  have hsum : (bs.map (·.weight.toNat)).sum = bs.length := by
    rw [List.map_congr_left fun b hb => by rw [h.weight b hb]]
    simp
  rw [totalWeight_eq_sum _ (hsum ▸ h.length), hsum]

/-- Over unit weights the weighted pick is the round robin pick. -/
lemma Light.pickWeighted {bs : List UpfBackend} (h : Light bs) (idx : UInt64) :
    pickWeighted bs idx = pickRoundRobin bs idx := by
  rw [PfcpProxy.pickWeighted, h.totalWeight, pickRoundRobin]
  simpa using weightedScan_unit h.weight 0 (idx.toNat % bs.length)

lemma Light.totalWeight_ne_zero {bs : List UpfBackend} (h : Light bs) (hne : bs ≠ []) :
    PfcpProxy.totalWeight bs ≠ 0 := by
  intro hzero
  have htotal := h.totalWeight
  rw [hzero] at htotal
  exact hne (List.length_eq_zero_iff.mp htotal.symm)

/-! ### Programs that go side by side -/

/-- What an operation may answer over a light pool. -/
def Fits : (o : Op) → o.Res → Prop
  | .poolHealthyBackends, bs => Light bs
  | _, _ => True

/-- The first program does under the weighted strategy what the second one does under round
robin. -/
inductive Parallel {α : Type} : Handler α → Handler α → Prop
  | done (a : α) : Parallel (.done a) (.done a)
  | strategy {k k' : LoadBalancingStrategy → Handler α} (h : Parallel (k .weighted) (k' .roundRobin)) :
    Parallel (.act .poolStrategy k) (.act .poolStrategy k')
  | act {o : Op} {k k' : o.Res → Handler α} (ho : o ≠ .poolStrategy)
      (h : ∀ r, Fits o r → Parallel (k r) (k' r)) : Parallel (.act o k) (.act o k')

lemma Parallel.bind {α β : Type} {p p' : Handler α} {f f' : α → Handler β} (hp : Parallel p p')
    (hf : ∀ a, Parallel (f a) (f' a)) : Parallel (p >>= f) (p' >>= f') := by
  induction hp with
  | done a => exact hf a
  | strategy _ ih => exact .strategy ih
  | act ho _ ih => exact .act ho fun r hr => ih r hr

/-- A program that does not ask for the strategy goes side by side with itself. -/
lemma Parallel.of_only {α : Type} {p : Handler α} (hp : Only (· ≠ .poolStrategy) p) :
    Parallel p p := by
  induction p with
  | done a => exact .done a
  | act o k ih => exact .act hp.1 fun r _ => ih r (hp.2 r)

lemma selectWeighted_parallel : Parallel selectWeighted selectRoundRobin := by
  simp only [selectWeighted, selectRoundRobin, Prog.call_bind]
  refine .act (by simp) fun healthy hlight => ?_
  have hlight' : Light healthy := hlight
  by_cases hne : healthy = []
  · simp only [hne, List.isEmpty_nil, if_true]
    exact .done none
  · simp only [List.isEmpty_iff, hne, hlight'.totalWeight_ne_zero hne, if_false]
    refine .act (by simp) fun idx _ => ?_
    rw [hlight'.pickWeighted]
    exact .done _

lemma selectUpf_parallel : Parallel selectUpf selectUpf := by
  simp only [selectUpf, Prog.call_bind]
  exact .strategy selectWeighted_parallel

/-! ### Runs side by side -/

/-- The same state with the weighted strategy. -/
def Proxy.weighted (p : Proxy) : Proxy :=
  { p with upfPool := { p.upfPool with strategy := .weighted } }

/-- The states of the two proxies. -/
structure Alike (p p' : Proxy) : Prop where
  eq : p = p'.weighted
  strategy : p'.upfPool.strategy = .roundRobin
  light : LightPool p'.upfPool

/-- The acts of the two proxies. -/
inductive SameAct : Act Op.Res → Act Op.Res → Prop
  | strategy : SameAct ⟨.poolStrategy, .weighted⟩ ⟨.poolStrategy, .roundRobin⟩
  | same {o : Op} (r : o.Res) (ho : o ≠ .poolStrategy) (hr : Fits o r) : SameAct ⟨o, r⟩ ⟨o, r⟩

lemma envStep_weighted (e : Env) (p : Proxy) : envStep e p.weighted = (envStep e p).weighted := by
  cases e with
  | addBackend a =>
    simp only [envStep, Proxy.weighted, UpfPool.addBackend]
    by_cases hmax : p.upfPool.backends.length ≥ p.upfPool.maxBackends
    · simp only [hmax, if_true]
      rfl
    · by_cases hany : p.upfPool.backends.any (fun b => b.addr = a) = true
      · simp only [hmax, hany, if_true, if_false]
        rfl
      · simp only [hmax, hany, if_false]
        rfl
  | removeBackend a =>
    simp only [envStep, Proxy.weighted, UpfPool.removeBackend]
    by_cases hkept : (p.upfPool.backends.filter (fun b => b.addr ≠ a)).length =
        p.upfPool.backends.length
    · simp only [hkept, if_true]
      rfl
    · simp only [hkept, if_false]
      rfl
  | _ => rfl

/-- The call on the pool an environment step makes. -/
def Env.call : Env → Option PoolCall
  | .addBackend a => some (.addBackend a)
  | .removeBackend a => some (.removeBackend a)
  | .updateHealth a st => some (.updateHealth a st)
  | _ => none

lemma envStep_upfPool (e : Env) (p : Proxy) :
    (envStep e p).upfPool = (e.call.map (PoolCall.apply p.upfPool)).getD p.upfPool := by
  cases e <;> rfl

lemma apply_strategy (p : UpfPool) (call : PoolCall) : (call.apply p).strategy = p.strategy := by
  cases call with
  | addBackend a =>
    simp only [PoolCall.apply, UpfPool.addBackend]
    split
    · rfl
    · split <;> rfl
  | removeBackend a =>
    simp only [PoolCall.apply, UpfPool.removeBackend]
    split <;> rfl
  | updateHealth a st => rfl

variable {p p' : Proxy}

lemma Alike.envStep (h : Alike p p') (e : Env) : Alike (envStep e p) (envStep e p') := by
  refine ⟨by rw [h.eq, envStep_weighted], ?_, ?_⟩
  · rw [envStep_upfPool]
    cases e.call with
    | none => exact h.strategy
    | some call => exact (apply_strategy _ call).trans h.strategy
  · rw [envStep_upfPool]
    cases e.call with
    | none => exact h.light
    | some call => exact h.light.apply call

lemma Alike.exec (h : Alike p p') (o : Op) (w : Bool) :
    SameAct ⟨o, (exec o w p).1⟩ ⟨o, (exec o w p').1⟩ ∧ Alike (exec o w p).2 (exec o w p').2 := by
  obtain ⟨rfl, hstrategy, hlight⟩ := h
  have hstate : Alike (PfcpProxy.exec o w p'.weighted).2 (PfcpProxy.exec o w p').2 := by
    cases o <;> exact ⟨rfl, hstrategy, hlight.light, hlight.capped⟩
  refine ⟨?_, hstate⟩
  cases o with
  | poolStrategy =>
    have hres : (PfcpProxy.exec .poolStrategy w p').1 = .roundRobin := hstrategy
    rw [hres]
    exact .strategy
  | poolHealthyBackends => exact .same _ (by simp) (hlight.light.filter _)
  | _ => exact .same _ (by simp) trivial

/-- Programs that go side by side still do so behind acts of the two proxies. -/
lemma SameAct.parallel {α : Type} {o : Op} {r r' : o.Res} {k k' : o.Res → Handler α}
    (ha : SameAct ⟨o, r⟩ ⟨o, r'⟩) (hp : Parallel (.act o k) (.act o k')) :
    Parallel (k r) (k' r') := by
  cases hp with
  | strategy hk =>
    cases ha with
    | strategy => exact hk
    | same r ho hr => exact absurd rfl ho
  | act ho hk =>
    cases ha with
    | strategy => exact absurd rfl ho
    | same r ho hr => exact hk _ hr

lemma forall₂_set {A B : Type} {R : A → B → Prop} {l : List A} {l' : List B}
    (h : List.Forall₂ R l l') (i : ℕ) {a : A} {b : B} (hab : R a b) :
    List.Forall₂ R (l.set i a) (l'.set i b) := by
  induction h generalizing i with
  | nil => exact .nil
  | cons hxy hrest ih =>
    cases i with
    | zero => exact .cons hab hrest
    | succ i => exact .cons hxy (ih i)

lemma forall₂_getElem? {A B : Type} {R : A → B → Prop} {l : List A} {l' : List B}
    (h : List.Forall₂ R l l') (i : ℕ) :
    (l[i]? = none ∧ l'[i]? = none) ∨ ∃ a b, l[i]? = some a ∧ l'[i]? = some b ∧ R a b := by
  induction h generalizing i with
  | nil => exact .inl ⟨rfl, rfl⟩
  | @cons x y l l' hxy _ ih =>
    cases i with
    | zero => exact .inr ⟨x, y, rfl, rfl, hxy⟩
    | succ i => exact ih i

section SideBySide

variable {M : Type} {handler : M → Handler Unit}

/-- The system whose tasks run `handler`. -/
def running (handler : M → Handler Unit) : System Op.Res Proxy M Env Bool :=
  ⟨exec, envStep, handler⟩

/-- Entries of the two histories. -/
inductive SameEvent : Event Op.Res Proxy M Env → Event Op.Res Proxy M Env → Prop
  | recv (i : ℕ) (m : M) : SameEvent (.recv i m) (.recv i m)
  | act (i : ℕ) {a a' : Act Op.Res} {pre pre' : Proxy} (ha : SameAct a a') (hp : Alike pre pre') :
    SameEvent (.act i a pre) (.act i a' pre')
  | env (e : Env) {pre pre' : Proxy} (hp : Alike pre pre') :
    SameEvent (.env e pre) (.env e pre')

/-- The configurations of the two systems. -/
structure SideBySide (c c' : Config Op.Res Proxy M) : Prop where
  shared : Alike c.shared c'.shared
  tasks : List.Forall₂ (fun t t' => t.msg = t'.msg ∧ Parallel t.prog t'.prog) c.tasks c'.tasks

variable {c c' : Config Op.Res Proxy M}

/-- Whatever happens next happens on both sides, or on neither. -/
lemma SideBySide.next (hself : ∀ m, Parallel (handler m) (handler m)) (h : SideBySide c c')
    (y : Choice M Env Bool) :
    (AtomicTasks.next (running handler) c y = none ∧
      AtomicTasks.next (running handler) c' y = none) ∨
    ∃ e e' d d', AtomicTasks.next (running handler) c y = some (e, d) ∧
      AtomicTasks.next (running handler) c' y = some (e', d') ∧ SameEvent e e' ∧
      SideBySide d d' := by
  obtain ⟨hshared, htasks⟩ := h
  have hlen := htasks.length_eq
  cases y with
  | recv m =>
    refine .inr ⟨_, _, _, _, rfl, rfl, ?_, hshared, ?_⟩
    · rw [hlen]
      exact .recv _ m
    · exact List.rel_append htasks (.cons ⟨rfl, hself m⟩ .nil)
  | env e => exact .inr ⟨_, _, _, _, rfl, rfl, .env e hshared, hshared.envStep e, htasks⟩
  | step i w =>
    rcases forall₂_getElem? htasks i with ⟨hi, hi'⟩ | ⟨t, t', hi, hi', hmsg, hprog⟩
    · exact .inl (by simp [AtomicTasks.next, hi, hi'])
    obtain ⟨m, prog⟩ := t
    obtain ⟨m', prog'⟩ := t'
    obtain rfl : m = m' := hmsg
    cases hprog with
    | done u => exact .inl (by simp [AtomicTasks.next, hi, hi'])
    | @strategy k k' hk =>
      obtain ⟨hact, hnext⟩ := hshared.exec .poolStrategy w
      simp only [AtomicTasks.next, hi, hi']
      refine .inr ⟨_, _, _, _, rfl, rfl, .act i hact hshared, hnext, forall₂_set htasks i ⟨rfl, ?_⟩⟩
      exact hact.parallel (.strategy hk)
    | @act o k k' ho hk =>
      obtain ⟨hact, hnext⟩ := hshared.exec o w
      simp only [AtomicTasks.next, hi, hi']
      refine .inr ⟨_, _, _, _, rfl, rfl, .act i hact hshared, hnext, forall₂_set htasks i ⟨rfl, ?_⟩⟩
      exact hact.parallel (.act ho hk)

lemma SideBySide.replay (hself : ∀ m, Parallel (handler m) (handler m)) (h : SideBySide c c')
    {x x' : List (Event Op.Res Proxy M Env)} (hx : List.Forall₂ SameEvent x x')
    (ys : List (Choice M Env Bool)) :
    List.Forall₂ SameEvent (AtomicTasks.replay (running handler) ys (x, c)).1
        (AtomicTasks.replay (running handler) ys (x', c')).1 ∧
      SideBySide (AtomicTasks.replay (running handler) ys (x, c)).2
        (AtomicTasks.replay (running handler) ys (x', c')).2 := by
  induction ys generalizing x x' c c' with
  | nil => exact ⟨hx, h⟩
  | cons y ys ih =>
    simp only [AtomicTasks.replay]
    rcases h.next hself y with ⟨hn, hn'⟩ | ⟨e, e', d, d', hn, hn', hev, hd⟩
    · simp only [hn, hn']
      exact ih h hx
    · simp only [hn, hn']
      exact ih hd (List.rel_append hx (.cons hev .nil))

end SideBySide

/-! ### The same results -/

/-- Behind the acts of the two proxies the two programs return the same. -/
lemma Parallel.returns {α : Type} {f f' : Handler α} (hf : Parallel f f') {l l' : Acts}
    (hl : List.Forall₂ SameAct l l') (a : α) : Path f l (.done a) ↔ Path f' l' (.done a) := by
  induction hf generalizing l l' with
  | done b =>
    rw [path_done_iff, path_done_iff, ← List.length_eq_zero_iff, hl.length_eq,
      List.length_eq_zero_iff]
  | @strategy k k' _ ih =>
    cases hl with
    | nil => exact ⟨fun h => (nomatch path_nil_iff.mp h), fun h => (nomatch path_nil_iff.mp h)⟩
    | cons hact hrest =>
      cases hact with
      | strategy =>
        constructor
        · rintro (_ | ⟨_, h⟩)
          exact .cons _ ((ih hrest).mp h)
        · rintro (_ | ⟨_, h⟩)
          exact .cons _ ((ih hrest).mpr h)
      | same r ho hr =>
        constructor
        · rintro (_ | ⟨_, h⟩)
          exact absurd rfl ho
        · rintro (_ | ⟨_, h⟩)
          exact absurd rfl ho
  | @act o k k' ho _ ih =>
    cases hl with
    | nil => exact ⟨fun h => (nomatch path_nil_iff.mp h), fun h => (nomatch path_nil_iff.mp h)⟩
    | cons hact hrest =>
      cases hact with
      | strategy =>
        constructor
        · rintro (_ | ⟨_, h⟩)
          exact absurd rfl ho
        · rintro (_ | ⟨_, h⟩)
          exact absurd rfl ho
      | same r ho' hr =>
        constructor
        · rintro (_ | ⟨_, h⟩)
          exact .cons _ ((ih _ hr hrest).mp h)
        · rintro (_ | ⟨_, h⟩)
          exact .cons _ ((ih _ hr hrest).mpr h)

lemma sameAct_acts {M : Type} {h h' : List (Event Op.Res Proxy M Env)}
    (hh : List.Forall₂ SameEvent h h') (i : ℕ) : List.Forall₂ SameAct (acts i h) (acts i h') := by
  induction hh with
  | nil => exact .nil
  | cons hev _ ih =>
    cases hev with
    | recv j m => exact ih
    | env e hp => exact ih
    | act j ha hp =>
      by_cases hj : j = i
      · subst hj
        rw [acts_act_self, acts_act_self]
        exact .cons ha ih
      · rw [acts_act_of_ne hj, acts_act_of_ne hj]
        exact ih

/-- A proxy over a new pool whose selection index stands at `idx`. -/
def Proxy.indexed (backends : List SocketAddr) (strategy : LoadBalancingStrategy) (idx : UInt64) :
    Proxy :=
  { Proxy.new backends strategy with
    upfPool := { UpfPool.new backends strategy with nextIndex := idx } }

lemma alike_indexed {backends : List SocketAddr} (hlen : backends.length < UInt32.size)
    (idx : UInt64) :
    Alike (Proxy.indexed backends .weighted idx) (Proxy.indexed backends .roundRobin idx) :=
  ⟨rfl, rfl, (lightPool_new .roundRobin hlen).light, (lightPool_new .roundRobin hlen).capped⟩

/-- What a schedule of selections and pool calls leads to. -/
abbrev selected (backends : List SocketAddr) (strategy : LoadBalancingStrategy) (idx : UInt64)
    (ys : List (Choice Unit Env Bool)) : Calls × Config Op.Res Proxy Unit :=
  replay (selectors selectUpf) ys ([], ⟨Proxy.indexed backends strategy idx, []⟩)

/-- The weighted strategy is round robin. From a new pool and the same index, whatever calls
on the pool and whatever selections follow in whatever order, the two strategies select the
same addresses and keep equal indices. -/
theorem weighted_is_roundRobin {backends : List SocketAddr}
    (hlen : backends.length < UInt32.size) (idx : UInt64) (ys : List (Choice Unit Env Bool)) :
    (selected backends .weighted idx ys).2.shared.upfPool.nextIndex =
        (selected backends .roundRobin idx ys).2.shared.upfPool.nextIndex ∧
      (selected backends .weighted idx ys).2.shared.upfPool.backends =
        (selected backends .roundRobin idx ys).2.shared.upfPool.backends ∧
      (selected backends .weighted idx ys).2.tasks.length =
        (selected backends .roundRobin idx ys).2.tasks.length ∧
      ∀ i r, Path selectUpf (acts i (selected backends .weighted idx ys).1) (.done r) ↔
        Path selectUpf (acts i (selected backends .roundRobin idx ys).1) (.done r) := by
  have hself : ∀ _ : Unit, Parallel (selectUpf >>= fun _ => pure ())
      (selectUpf >>= fun _ => pure ()) :=
    fun _ => selectUpf_parallel.bind fun _ => .done ()
  have hstart : SideBySide (M := Unit)
      ⟨Proxy.indexed backends .weighted idx, []⟩ ⟨Proxy.indexed backends .roundRobin idx, []⟩ :=
    ⟨alike_indexed hlen idx, .nil⟩
  obtain ⟨hhist, hshared, htasks⟩ := hstart.replay hself .nil ys
  refine ⟨?_, ?_, htasks.length_eq, fun i r => ?_⟩
  · exact congrArg (fun p => p.upfPool.nextIndex) hshared.eq
  · exact congrArg (fun p => p.upfPool.backends) hshared.eq
  · exact selectUpf_parallel.returns (sameAct_acts hhist i) r

/-- Two selections over a pool that loses a backend between them. -/
theorem weighted_is_roundRobin_removal :
    (selected [.v4 1 8805, .v4 2 8805] .weighted 7
        [.recv (), .step 0 true, .env (.removeBackend (.v4 1 8805)), .step 0 true, .recv (),
          .step 0 true, .step 1 true]).2.shared.upfPool.nextIndex =
      (selected [.v4 1 8805, .v4 2 8805] .roundRobin 7
        [.recv (), .step 0 true, .env (.removeBackend (.v4 1 8805)), .step 0 true, .recv (),
          .step 0 true, .step 1 true]).2.shared.upfPool.nextIndex :=
  (weighted_is_roundRobin (by decide) 7 _).1

/-! ### The whole proxy -/

lemma routeAffinity_only (t : MsgType) (seid : Option UInt64) :
    Only (· ≠ .poolStrategy) (routeAffinity t seid) := by
  cases seid with
  | none => simp [routeAffinity]
  | some s =>
    simp only [routeAffinity, Prog.call_bind, only_act]
    refine ⟨by simp, fun r => ?_⟩
    cases r with
    | none => simp
    | some u =>
      by_cases hdel : t = .sessionDeletionRequest
      · simp [hdel, recordRoutingDecision, recordSessionDeleted]
      · simp [hdel, recordRoutingDecision]

lemma routeMessage_parallel {t : MsgType} (ht : isSmfRequest t = true) (seid : Option UInt64)
    (a : SocketAddr) : Parallel (routeMessage t seid a) (routeMessage t seid a) := by
  rcases (isSmfRequest_iff t).mp ht with hb | rfl | rfl | rfl | hdef
  · rw [routeMessage_of_broadcast hb]
    exact .of_only (by simp [routeBroadcast, recordRoutingDecision])
  · refine selectUpf_parallel.bind fun r => .of_only ?_
    cases r with
    | none => simp
    | some u => cases seid <;> simp [recordRoutingDecision, recordSessionEstablished]
  · exact .of_only (routeAffinity_only _ seid)
  · exact .of_only (routeAffinity_only _ seid)
  · rw [routeMessage_of_default hdef]
    cases seid with
    | none =>
      refine selectUpf_parallel.bind fun r => .of_only ?_
      cases r <;> simp [recordRoutingDecision]
    | some s =>
      simp only [routeDefault, Prog.call_bind]
      refine .act (by simp) fun r _ => ?_
      cases r with
      | some u => exact .of_only (by simp [recordRoutingDecision])
      | none =>
        refine selectUpf_parallel.bind fun r => .of_only ?_
        cases r <;> simp [recordRoutingDecision]

lemma handleMessage_parallel (d : Datagram) : Parallel (handleMessage d) (handleMessage d) := by
  have hrelay : ∀ o : Op, o.isRelay = true → o ≠ .poolStrategy := by
    rintro o ho rfl
    cases ho
  cases hd : d.header with
  | none => simpa [handleMessage, hd] using Parallel.done ()
  | some h =>
    have hreceived : Parallel (recordMessageReceived h.msgType) (recordMessageReceived h.msgType) :=
      .of_only (by simp [recordMessageReceived])
    cases hupf : isUpfRequest h.msgType with
    | true =>
      rw [handleMessage_upf hd hupf]
      refine hreceived.bind fun _ => .of_only ?_
      refine (handleUpfRequest_only d.data d.src h.seid h.sequence).mono fun o ho => ?_
      rcases ho with ho | ⟨s, rfl⟩
      · exact hrelay o ho
      · simp
    | false =>
      cases hsmf : isSmfRequest h.msgType with
      | true =>
        rw [handleMessage_smf hd hsmf]
        exact hreceived.bind fun _ => (routeMessage_parallel hsmf h.seid d.src).bind fun dec =>
          .of_only ((forwardRequest_only _ _ _ dec).mono hrelay)
      | false =>
        rw [handleMessage_response hd (by simp [isRequest, hsmf, hupf])]
        exact hreceived.bind fun _ => .of_only ((handleResponse_only _ _).mono hrelay)

/-- The proxy with the weighted strategy does step by step what the proxy with round robin
does, and always is in the same state but for the name of the strategy. -/
theorem proxy_weighted_is_roundRobin {backends : List SocketAddr}
    (hlen : backends.length < UInt32.size) (ys : List (Choice Datagram Env Bool)) :
    List.Forall₂ SameEvent (played backends .weighted ys).1 (played backends .roundRobin ys).1 ∧
      (played backends .weighted ys).2.shared =
        (played backends .roundRobin ys).2.shared.weighted := by
  have hstart : SideBySide (M := Datagram) ⟨Proxy.new backends .weighted, []⟩
      ⟨Proxy.new backends .roundRobin, []⟩ :=
    ⟨⟨rfl, rfl, lightPool_new .roundRobin hlen⟩, .nil⟩
  obtain ⟨hhist, hend⟩ := hstart.replay handleMessage_parallel .nil ys
  exact ⟨hhist, hend.shared.eq⟩

theorem proxy_weighted_is_roundRobin_established :
    List.Forall₂ SameEvent (played [upfX, upfY] .weighted (oneByOne 0
        [message .sessionEstablishmentRequest (some 7) 1 smfA])).1 establishedByA.1 ∧
      (played [upfX, upfY] .weighted (oneByOne 0
        [message .sessionEstablishmentRequest (some 7) 1 smfA])).2.shared =
          establishedByA.2.shared.weighted :=
  proxy_weighted_is_roundRobin (by decide) _

end PfcpProxy
