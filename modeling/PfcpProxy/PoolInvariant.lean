import PfcpProxy.Histories

/-!
# Pool representation

Broadcasts, response counts, per-UPF statistics and health gating take the addresses in the
pool to be distinct and few. `add_backend` and `remove_backend` keep it that way;
`UpfPool::new` takes the configured list as it is.
-/

namespace PfcpProxy

open AtomicTasks

/-! ### What a broadcast sends -/

/-- The copy an operation sends: its bytes and its destination. -/
def Op.copy : Op → Option (List UInt8 × SocketAddr)
  | .sendTo data dst => some (data, dst)
  | _ => none

/-- The copies a handler sends, whether or not the sends succeed. -/
def copies (l : Acts) : List (List UInt8 × SocketAddr) := l.filterMap (fun a => a.op.copy)

@[simp] lemma copies_nil : copies [] = [] := rfl

@[simp] lemma copies_append (l l' : Acts) : copies (l ++ l') = copies l ++ copies l' :=
  List.filterMap_append

@[simp] lemma copies_cons (a : Act Op.Res) (l : Acts) :
    copies (a :: l) = a.op.copy.toList ++ copies l := by
  cases hc : a.op.copy <;> simp [copies, hc]

lemma broadcastLoop_copies {data : List UInt8} {bs : List SocketAddr} {n m : ℕ} {l : Acts}
    (hp : Path (broadcastLoop data bs n) l (.done m)) : copies l = bs.map (fun u => (data, u)) := by
  induction bs generalizing n l with
  | nil =>
    obtain ⟨rfl, _⟩ := path_done_iff.mp hp
    rfl
  | cons b bs ih =>
    simp only [broadcastLoop, recordMessageSent, Prog.call_bind] at hp
    cases hp with
    | cons ok hp =>
      cases ok with
      | true =>
        cases hp with
        | cons _ hp =>
          cases hp with
          | cons _ hp => simpa [Op.copy] using ih hp
      | false => simpa [Op.copy] using ih hp

/-- Sends and the statistics of sends. -/
def Op.isDispatch : Op → Bool
  | .sendTo _ _ | .countUpfMessage _ => true
  | .fetchAdd c => c = .totalMessagesSent
  | _ => false

lemma broadcastLoop_dispatch (data : List UInt8) (bs : List SocketAddr) (n : ℕ) :
    Only (fun o => o.isDispatch = true) (broadcastLoop data bs n) := by
  apply (broadcastLoop_ops data bs n).mono
  rintro o (⟨a, rfl⟩ | rfl | ⟨a, rfl⟩) <;> rfl

variable {d : Datagram} {h : Header} {l : Acts}

/-- The acts of a broadcast handler: it reads the pool once, records the request, sends, and
removes the record if nothing was sent. -/
lemma broadcast_path (hd : d.header = some h) (hb : isBroadcastRequest h.msgType = true)
    (hp : Path (handleMessage d) l (.done ())) :
    ∃ bs m l₁ l₂, l = [⟨.fetchAdd .totalMessagesReceived, ()⟩, ⟨.countMsgType h.msgType, ()⟩,
        ⟨.fetchAdd .broadcasts, ()⟩, ⟨.poolAllBackends, bs⟩,
        ⟨.pendingInsert h.sequence d.src true false, ()⟩] ++ (l₁ ++ l₂) ∧
      Path (broadcastLoop d.data (bs.map (·.addr)) 0) l₁ (.done m) ∧
      l₂ = if m = 0 then [⟨.pendingRemove h.sequence, ()⟩] else [] := by
  rw [handleMessage_smf hd ((isSmfRequest_iff _).mpr (.inl hb)), routeMessage_of_broadcast hb] at hp
  simp only [recordMessageReceived, routeBroadcast, recordRoutingDecision, forwardRequest,
    Prog.call_bind, Prog.act_bind, Prog.pure_eq, Prog.done_bind, if_true] at hp
  rcases hp with _ | ⟨_, _ | ⟨_, _ | ⟨_, _ | ⟨bs, _ | ⟨_, hp⟩⟩⟩⟩⟩
  obtain ⟨m, l₁, l₂, rfl, hloop, hrest⟩ := path_bind_done hp
  refine ⟨bs, m, l₁, l₂, rfl, hloop, ?_⟩
  by_cases hm : m = 0
  · simp only [hm, if_true] at hrest ⊢
    cases hrest with
    | cons _ hrest => rw [(path_done_iff.mp hrest).1]
  · simp only [hm, if_false] at hrest ⊢
    exact (path_done_iff.mp hrest).1

/-- A broadcast handler sends one copy to each entry of the pool it has read. -/
lemma broadcast_copies (hd : d.header = some h) (hb : isBroadcastRequest h.msgType = true)
    (hp : Path (handleMessage d) l (.done ())) {bs : List UpfBackend}
    (hread : ⟨.poolAllBackends, bs⟩ ∈ l) : copies l = bs.map (fun b => (d.data, b.addr)) := by
  obtain ⟨bs', m, l₁, l₂, rfl, hloop, hl₂⟩ := broadcast_path hd hb hp
  have hrest : copies l₂ = [] ∧ ⟨.poolAllBackends, bs⟩ ∉ l₂ := by
    rw [hl₂]
    split <;> simp [Op.copy]
  have hloop₁ : ⟨.poolAllBackends, bs⟩ ∉ l₁ := fun hm => by
    simpa [Op.isDispatch] using hloop.only (broadcastLoop_dispatch _ _ _) _ hm
  obtain rfl : bs = bs' := by simpa [hrest.2, hloop₁] using hread
  simp [Op.copy, broadcastLoop_copies hloop, hrest.1, Function.comp_def]

/-- On its way, a broadcast handler has sent nothing, or a copy to each of the first entries of the
pool it has read. -/
lemma broadcast_copies_prefix (hd : d.header = some h) (hb : isBroadcastRequest h.msgType = true)
    {q : Handler Unit} (hp : Path (handleMessage d) l q) :
    copies l = [] ∨ ∃ bs, ⟨.poolAllBackends, bs⟩ ∈ l ∧
      copies l <+: bs.map fun b => (d.data, b.addr) := by
  have hall := hp.append (run_path exec q (fun _ => true) (Proxy.new [] .roundRobin))
  generalize (run exec q (fun _ => true) (Proxy.new [] .roundRobin)).acts = l' at hall
  obtain ⟨bs, m, l₁, l₂, hl, hloop, _⟩ := broadcast_path hd hb hall
  rcases List.append_eq_append_iff.mp hl with ⟨z, hfront, _⟩ | ⟨z, rfl, _⟩
  · left
    have hnone := congrArg copies hfront
    rw [copies_append] at hnone
    have hempty : copies l ++ copies z = [] := by simpa [Op.copy] using hnone.symm
    exact (List.append_eq_nil_iff.mp hempty).1
  · right
    refine ⟨bs, by simp, ?_⟩
    have hcopies := broadcast_copies hd hb hall
      (show (⟨.poolAllBackends, bs⟩ : Act Op.Res) ∈ _ by simp)
    rw [← hcopies, copies_append _ l']
    exact List.prefix_append _ _

/-! ### The pool under its operations -/

/-- The calls that change the backends of a pool. -/
inductive PoolCall
  | addBackend (addr : SocketAddr)
  | removeBackend (addr : SocketAddr)
  | updateHealth (addr : SocketAddr) (status : HealthStatus)
  deriving DecidableEq, Repr

/-- A refused call leaves the pool alone. -/
def PoolCall.apply (p : UpfPool) : PoolCall → UpfPool
  | .addBackend a => p.orUnchanged (p.addBackend a)
  | .removeBackend a => p.orUnchanged (p.removeBackend a)
  | .updateHealth a st => p.updateHealth a st

namespace UpfPool

/-- The addresses in the pool. -/
def addrs (p : UpfPool) : List SocketAddr := p.backends.map (·.addr)

/-- The pool after some calls. -/
def afterCalls (p : UpfPool) (calls : List PoolCall) : UpfPool := calls.foldl PoolCall.apply p

lemma addrs_new (backends : List SocketAddr) (strategy : LoadBalancingStrategy) :
    (new backends strategy).addrs = backends := by
  simp [addrs, new, UpfBackend.fresh, Function.comp_def]

lemma addrs_addBackend (p : UpfPool) (a : SocketAddr) :
    (p.orUnchanged (p.addBackend a)).addrs =
      if p.backends.length < p.maxBackends ∧ a ∉ p.addrs then p.addrs ++ [a] else p.addrs := by
  have hany : p.backends.any (fun b => b.addr = a) = true ↔ a ∈ p.addrs := by simp [addrs]
  unfold addBackend
  by_cases hmax : p.backends.length ≥ p.maxBackends
  · simp [hmax, orUnchanged, Nat.not_lt.mpr hmax]
  by_cases hmem : a ∈ p.addrs
  · simp [hmax, hany.mpr hmem, hmem, orUnchanged]
  · have hnew : p.backends.any (fun b => b.addr = a) = false :=
      Bool.eq_false_iff.mpr fun h => hmem (hany.mp h)
    rw [if_neg hmax, hnew, if_neg Bool.false_ne_true, if_pos ⟨Nat.not_le.mp hmax, hmem⟩]
    simp [orUnchanged, addrs, UpfBackend.fresh]

lemma addrs_removeBackend (p : UpfPool) (a : SocketAddr) :
    (p.orUnchanged (p.removeBackend a)).addrs = p.addrs.filter (· ≠ a) := by
  have hfilter : (p.backends.filter (fun b => b.addr ≠ a)).map (·.addr) = p.addrs.filter (· ≠ a) := by
    simp [addrs, List.filter_map, Function.comp_def]
  unfold removeBackend
  by_cases hlen : (p.backends.filter (fun b => b.addr ≠ a)).length = p.backends.length
  · have hall : p.backends.filter (fun b => b.addr ≠ a) = p.backends :=
      List.filter_sublist.eq_of_length hlen
    simp only [hlen, if_true, orUnchanged]
    rw [← hfilter, hall, addrs]
  · simp only [hlen, if_false, orUnchanged]
    exact hfilter

lemma addrs_updateHealth (p : UpfPool) (a : SocketAddr) (st : HealthStatus) :
    (p.updateHealth a st).addrs = p.addrs := by
  unfold updateHealth addrs
  induction p.backends with
  | nil => rfl
  | cons b bs ih =>
    unfold setHealth
    split <;> simp_all

@[simp] lemma apply_maxBackends (p : UpfPool) (call : PoolCall) :
    (call.apply p).maxBackends = p.maxBackends := by
  cases call with
  | addBackend a =>
    simp only [PoolCall.apply, addBackend]
    split
    · rfl
    · split <;> rfl
  | removeBackend a =>
    simp only [PoolCall.apply, removeBackend]
    split <;> rfl
  | updateHealth a st => rfl

/-- The addresses are pairwise distinct and fit in the pool. -/
structure Distinct (p : UpfPool) : Prop where
  nodup : p.addrs.Nodup
  capped : p.backends.length ≤ p.maxBackends

lemma length_addrs (p : UpfPool) : p.addrs.length = p.backends.length := List.length_map _

lemma nodup_apply {p : UpfPool} (hp : p.addrs.Nodup) (call : PoolCall) :
    (call.apply p).addrs.Nodup := by
  cases call with
  | addBackend a =>
    rw [PoolCall.apply, addrs_addBackend]
    split
    · rename_i hnew
      exact hp.append (List.nodup_singleton a) (by simpa using hnew.2)
    · exact hp
  | removeBackend a =>
    rw [PoolCall.apply, addrs_removeBackend]
    exact hp.filter _
  | updateHealth a st => rwa [PoolCall.apply, addrs_updateHealth]

lemma nodup_afterCalls {p : UpfPool} (hp : p.addrs.Nodup) (calls : List PoolCall) :
    (p.afterCalls calls).addrs.Nodup := by
  induction calls generalizing p with
  | nil => exact hp
  | cons call calls ih => exact ih (nodup_apply hp call)

lemma Distinct.apply {p : UpfPool} (hp : p.Distinct) (call : PoolCall) :
    (call.apply p).Distinct := by
  obtain ⟨hnodup, hcap⟩ := hp
  rw [← length_addrs] at hcap
  constructor
  · exact nodup_apply hnodup call
  · rw [apply_maxBackends, ← length_addrs]
    cases call with
    | addBackend a =>
      rw [PoolCall.apply, addrs_addBackend]
      split
      · rename_i hnew
        have hlt := hnew.1
        rw [← length_addrs] at hlt
        simpa using Nat.succ_le_of_lt hlt
      · exact hcap
    | removeBackend a =>
      rw [PoolCall.apply, addrs_removeBackend]
      exact (List.length_filter_le _ _).trans hcap
    | updateHealth a st => rwa [PoolCall.apply, addrs_updateHealth]

lemma Distinct.afterCalls {p : UpfPool} (hp : p.Distinct) (calls : List PoolCall) :
    (p.afterCalls calls).Distinct := by
  induction calls generalizing p with
  | nil => exact hp
  | cons call calls ih => exact ih (hp.apply call)

lemma distinct_new {backends : List SocketAddr} (strategy : LoadBalancingStrategy)
    (hnodup : backends.Nodup) (hcap : backends.length ≤ 64) : (new backends strategy).Distinct :=
  ⟨by rwa [addrs_new], by simpa [new] using hcap⟩

/-- Where the addresses are distinct, the first entry with an address is the only one. -/
lemma setHealth_health {a : SocketAddr} {st : HealthStatus} {bs : List UpfBackend}
    (hnodup : (bs.map (·.addr)).Nodup) {b : UpfBackend} (hb : b ∈ setHealth a st bs)
    (ha : b.addr = a) : b.health = st := by
  induction bs with
  | nil => simp [setHealth] at hb
  | cons b' bs ih =>
    rw [List.map_cons, List.nodup_cons] at hnodup
    unfold setHealth at hb
    split at hb
    · rename_i hb'
      rcases List.mem_cons.mp hb with rfl | hb
      · rfl
      · exact absurd (List.mem_map.mpr ⟨b, hb, ha.trans hb'.symm⟩) hnodup.1
    · rename_i hb'
      rcases List.mem_cons.mp hb with rfl | hb
      · exact absurd ha hb'
      · exact ih hnodup.2 hb

/-- What the rest of the proxy takes a pool to be. -/
structure Representation (p : UpfPool) : Prop extends p.Distinct where
  one_copy : ∀ d h l, d.header = some h → isBroadcastRequest h.msgType = true →
    Path (handleMessage d) l (.done ()) → ⟨.poolAllBackends, p.backends⟩ ∈ l →
    ∀ b ∈ p.backends, (copies l).count (d.data, b.addr) = 1
  health_determined : ∀ a st, ∀ b ∈ (p.updateHealth a st).backends, b.addr = a → b.health = st

/-- Distinct addresses make broadcasts and health updates exact. -/
lemma Distinct.representation {p : UpfPool} (hp : p.Distinct) : p.Representation := by
  refine ⟨hp, ?_, fun a st b hb ha => setHealth_health hp.nodup hb ha⟩
  intro d h l hd hb hpath hread b hmem
  have hcopies : copies l = p.addrs.map (fun u => (d.data, u)) := by
    rw [broadcast_copies hd hb hpath hread, addrs, List.map_map]
    rfl
  rw [hcopies]
  apply List.count_eq_one_of_mem
  · exact hp.nodup.map fun _ _ huv => (Prod.mk.inj huv).2
  · exact List.mem_map_of_mem (List.mem_map_of_mem hmem)

end UpfPool

/-! ### The pool of a run -/

/-- The call an entry of a history makes on the pool. -/
def Event.poolCall : Event Op.Res Proxy Datagram Env → Option PoolCall
  | .env (.addBackend a) _ => some (.addBackend a)
  | .env (.removeBackend a) _ => some (.removeBackend a)
  | .env (.updateHealth a st) _ => some (.updateHealth a st)
  | _ => none

def poolCalls (hist : History) : List PoolCall := hist.filterMap Event.poolCall

lemma poolCalls_snoc (hist : History) (e : Event Op.Res Proxy Datagram Env) :
    poolCalls (hist ++ [e]) = poolCalls hist ++ (Event.poolCall e).toList := by
  cases hcall : Event.poolCall e <;> simp [poolCalls, hcall]

/-- Two pools have the same backends and the same cap. -/
def SameBackends (p p' : UpfPool) : Prop :=
  p.backends = p'.backends ∧ p.maxBackends = p'.maxBackends

lemma SameBackends.apply {p p' : UpfPool} (h : SameBackends p p') (call : PoolCall) :
    SameBackends (call.apply p) (call.apply p') := by
  obtain ⟨hb, hm⟩ := h
  refine ⟨?_, by rw [UpfPool.apply_maxBackends, UpfPool.apply_maxBackends, hm]⟩
  cases call with
  | addBackend a =>
    simp only [PoolCall.apply, UpfPool.addBackend, hb, hm]
    split
    · exact hb
    · split
      · exact hb
      · rfl
  | removeBackend a =>
    simp only [PoolCall.apply, UpfPool.removeBackend, hb]
    split
    · exact hb
    · rfl
  | updateHealth a st => simp only [PoolCall.apply, UpfPool.updateHealth, hb]

section Runs

variable {p₀ : Proxy} {hist : History} {c : Config Op.Res Proxy Datagram}

lemma exec_sameBackends (o : Op) (w : Bool) (p : Proxy) :
    SameBackends (exec o w p).2.upfPool p.upfPool := by
  cases o <;> exact ⟨rfl, rfl⟩

/-- The backends of a run are what the calls among its entries leave of the initial ones. -/
theorem run_backends (hr : Run proxy p₀ hist c) :
    SameBackends c.shared.upfPool (p₀.upfPool.afterCalls (poolCalls hist)) := by
  induction hr with
  | nil => exact ⟨rfl, rfl⟩
  | @snoc hist c c' e hr hs ih =>
    rw [poolCalls_snoc, UpfPool.afterCalls, List.foldl_append]
    cases hs with
    | recv d => exact ih
    | act i d o k w hi =>
      obtain ⟨hb, hm⟩ := exec_sameBackends o w c.shared
      exact ⟨hb.trans ih.1, hm.trans ih.2⟩
    | env e =>
      cases e with
      | addBackend a => exact ih.apply (.addBackend a)
      | removeBackend a => exact ih.apply (.removeBackend a)
      | updateHealth a st => exact ih.apply (.updateHealth a st)
      | _ => exact ih

lemma run_strategy (hr : Run proxy p₀ hist c) :
    c.shared.upfPool.strategy = p₀.upfPool.strategy := by
  induction hr with
  | nil => rfl
  | @snoc hist c c' e hr hs ih =>
    rw [← ih]
    cases hs with
    | recv d => rfl
    | act i d o k w hi => cases o <;> rfl
    | env e =>
      cases e with
      | addBackend a =>
        simp only [proxy, envStep, UpfPool.addBackend]
        split
        · rfl
        · split <;> rfl
      | removeBackend a =>
        simp only [proxy, envStep, UpfPool.removeBackend]
        split <;> rfl
      | _ => rfl

/-- The addresses in the pool at the end of a history. -/
def pooled (p₀ : Proxy) (hist : History) : List SocketAddr :=
  (p₀.upfPool.afterCalls (poolCalls hist)).addrs

lemma run_addrs (hr : Run proxy p₀ hist c) : c.shared.upfPool.addrs = pooled p₀ hist := by
  rw [UpfPool.addrs, (run_backends hr).1, pooled, UpfPool.addrs]

lemma pooled_nodup (hp₀ : p₀.upfPool.addrs.Nodup) (hist : History) : (pooled p₀ hist).Nodup :=
  UpfPool.nodup_afterCalls hp₀ _

lemma pooled_of_take {x y : History} {us : List SocketAddr}
    (hall : ∀ n < hist.length + 1, pooled p₀ (hist.take n) = us) (hxy : hist = x ++ y) :
    pooled p₀ x = us := by
  have hn := hall x.length (by rw [hxy, List.length_append]; omega)
  rwa [hxy, List.take_left] at hn

end Runs

/-- A pool keeps its representation under every sequence of calls if and only if it is built
from at most 64 distinct addresses. -/
theorem pool_representation_iff (backends : List SocketAddr) (strategy : LoadBalancingStrategy) :
    (∀ calls, ((UpfPool.new backends strategy).afterCalls calls).Representation) ↔
      backends.Nodup ∧ backends.length ≤ 64 := by
  constructor
  · intro hrep
    have hnew : (UpfPool.new backends strategy).Representation := hrep []
    refine ⟨?_, ?_⟩
    · rw [← UpfPool.addrs_new backends strategy]
      exact hnew.nodup
    · simpa [UpfPool.new] using hnew.capped
  · rintro ⟨hnodup, hcap⟩ calls
    exact ((UpfPool.distinct_new strategy hnodup hcap).afterCalls calls).representation

/-- One backend is configured twice. -/
theorem pool_representation_fails :
    ¬∀ calls, ((UpfPool.new [upfX, upfX] .roundRobin).afterCalls calls).Representation := by
  intro hrep
  have hnodup := (hrep []).nodup
  revert hnodup
  decide

end PfcpProxy
