import PfcpProxy.Lib.Cost
import PfcpProxy.Conservation
import PfcpProxy.PoolInvariant

/-!
# The work a datagram causes

How many operations a handler performs and how many datagrams it sends, given how large the pools
are that it reads, and what this makes of a run.
-/

namespace PfcpProxy

open AtomicTasks

/-- The pools that are read have at most `n` entries. -/
def PoolsAtMost (n : ℕ) : Act Op.Res → Prop
  | ⟨.poolHealthyBackends, bs⟩ => bs.length ≤ n
  | ⟨.poolAllBackends, bs⟩ => bs.length ≤ n
  | _ => True

/-- Every operation counts. -/
def Op.work (_ : Op) : ℕ := 1

/-- Only sends count. -/
def Op.sends (o : Op) : ℕ := if o.isSend then 1 else 0

/-- How many copies a decision asks for. -/
def RoutingDecision.copies : RoutingDecision → ℕ
  | .single _ => 1
  | .broadcast backends => backends.length
  | _ => 0

/-- How many copies routing may ask for. -/
def mostCopies (n : ℕ) (t : MsgType) : ℕ := if isBroadcastRequest t then n else 1

variable {n : ℕ}

/-! ### Selection -/

lemma leastSessionsLoop_work (bs : List UpfBackend) (m : ℕ) (sel : Option SocketAddr) :
    CostAtMost (PoolsAtMost n) Op.work (fun _ => True) (leastSessionsLoop bs m sel) bs.length := by
  induction bs generalizing m sel with
  | nil => trivial
  | cons b bs ih =>
    simp only [leastSessionsLoop, Prog.call_bind, costAtMost_act, List.length_cons]
    refine ⟨by simp [Op.work], fun r _ => ?_⟩
    split <;> exact ih _ _

lemma selectRoundRobin_work :
    CostAtMost (PoolsAtMost n) Op.work (fun _ => True) selectRoundRobin 2 := by
  simp only [selectRoundRobin, Prog.call_bind, costAtMost_act]
  refine ⟨by simp [Op.work], fun bs _ => ?_⟩
  split
  · trivial
  · simp [Op.work]

lemma selectUpf_work :
    CostAtMost (PoolsAtMost n) Op.work (fun _ => True) selectUpf (n + 4) := by
  simp only [selectUpf, Prog.call_bind, costAtMost_act]
  refine ⟨by simp [Op.work], fun r _ => ?_⟩
  cases r with
  | roundRobin => exact selectRoundRobin_work.mono (fun _ h => h) (by simp [Op.work])
  | leastSessions =>
    simp only [selectLeastSessions, Prog.call_bind, costAtMost_act]
    refine ⟨by simp [Op.work], fun bs hbs => ?_⟩
    have hlen : bs.length ≤ n := hbs
    split
    · trivial
    · exact (leastSessionsLoop_work bs _ _).mono (fun _ h => h) (by simp only [Op.work]; omega)
  | weighted =>
    simp only [selectWeighted, Prog.call_bind, costAtMost_act]
    refine ⟨by simp [Op.work], fun bs _ => ?_⟩
    split
    · trivial
    split
    · exact selectRoundRobin_work.mono (fun _ h => h) (by simp only [Op.work]; omega)
    · simp only [costAtMost_act, Prog.pure_eq, costAtMost_done, Op.work]
      exact ⟨by omega, fun _ _ => trivial⟩

/-! ### Routing -/

section Routing

variable (seid : Option UInt64) (src : SocketAddr)

/-- Routing by selection: what follows it performs at most three operations. -/
lemma selectUpf_bind_work {f : Option SocketAddr → Handler RoutingDecision}
    (hf : ∀ r, CostAtMost (PoolsAtMost n) Op.work (fun dec => dec.copies ≤ 1) (f r) 3) :
    CostAtMost (PoolsAtMost n) Op.work (fun dec => dec.copies ≤ 1) (selectUpf >>= f) (n + 7) :=
  selectUpf_work.bind fun r _ => hf r

lemma routeEstablishment_work :
    CostAtMost (PoolsAtMost n) Op.work (fun dec => dec.copies ≤ 1)
      (routeEstablishment seid src) (n + 7) := by
  apply selectUpf_bind_work
  intro r
  cases r with
  | none => simp [RoutingDecision.copies]
  | some u =>
    cases seid <;>
      simp [recordRoutingDecision, recordSessionEstablished, Op.work, RoutingDecision.copies]

lemma routeAffinity_work (t : MsgType) :
    CostAtMost (PoolsAtMost n) Op.work (fun dec => dec.copies ≤ 1) (routeAffinity t seid) 4 := by
  cases seid with
  | none => simp [routeAffinity, RoutingDecision.copies]
  | some s =>
    simp only [routeAffinity, Prog.call_bind, costAtMost_act]
    refine ⟨by simp [Op.work], fun r _ => ?_⟩
    cases r with
    | none => simp [RoutingDecision.copies]
    | some u =>
      by_cases hdel : t = .sessionDeletionRequest
      · simp [hdel, recordRoutingDecision, recordSessionDeleted, Op.work, RoutingDecision.copies]
      · simp [hdel, recordRoutingDecision, Op.work, RoutingDecision.copies]

lemma routeDefault_work :
    CostAtMost (PoolsAtMost n) Op.work (fun dec => dec.copies ≤ 1) (routeDefault seid src)
      (n + 8) := by
  cases seid with
  | none =>
    refine (selectUpf_bind_work fun r => ?_).mono (fun _ h => h) (Nat.le_succ (n + 7))
    cases r <;> simp [recordRoutingDecision, Op.work, RoutingDecision.copies]
  | some s =>
    simp only [routeDefault, Prog.call_bind, costAtMost_act]
    refine ⟨by simp [Op.work], fun r _ => ?_⟩
    cases r with
    | some u => simp [recordRoutingDecision, Op.work, RoutingDecision.copies]
    | none =>
      refine (selectUpf_bind_work fun r => ?_).mono (fun _ h => h) (by simp [Op.work])
      cases r <;> simp [recordRoutingDecision, Op.work, RoutingDecision.copies]

lemma routeBroadcast_work :
    CostAtMost (PoolsAtMost n) Op.work (fun dec => dec.copies ≤ n) routeBroadcast 2 := by
  simp only [routeBroadcast, recordRoutingDecision, if_true, Prog.call_bind, costAtMost_act]
  refine ⟨by simp [Op.work], fun _ _ => ⟨by simp [Op.work], fun bs hbs => ?_⟩⟩
  have hlen : bs.length ≤ n := hbs
  simpa [RoutingDecision.copies] using hlen

theorem routeMessage_work {t : MsgType} (ht : isSmfRequest t = true) :
    CostAtMost (PoolsAtMost n) Op.work (fun dec => dec.copies ≤ mostCopies n t)
      (routeMessage t seid src) (n + 8) := by
  rcases (isSmfRequest_iff t).mp ht with hb | rfl | rfl | rfl | hdef
  · rw [routeMessage_of_broadcast hb, mostCopies, if_pos hb]
    exact routeBroadcast_work.mono (fun _ h => h) (by omega)
  · exact (routeEstablishment_work seid src).mono (fun _ h => h) (by omega)
  · exact (routeAffinity_work seid _).mono (fun _ h => h) (by omega)
  · exact (routeAffinity_work seid _).mono (fun _ h => h) (by omega)
  · have hno : isBroadcastRequest t = false := (isDefaultRequest_ne hdef).2.1
    rw [routeMessage_of_default hdef, mostCopies, hno]
    exact routeDefault_work seid src

lemma selectUpf_sendless : Only (fun o => o.sends = 0) selectUpf := by
  apply selectUpf_only.mono
  intro o ho
  cases o <;> first | rfl | cases ho

lemma routeAffinity_sendless (t : MsgType) :
    Only (fun o => o.sends = 0) (routeAffinity t seid) := by
  cases seid with
  | none => simp [routeAffinity]
  | some s =>
    simp only [routeAffinity, Prog.call_bind, only_act]
    refine ⟨rfl, fun r => ?_⟩
    cases r with
    | none => simp
    | some u =>
      by_cases hdel : t = .sessionDeletionRequest
      · simp [hdel, recordRoutingDecision, recordSessionDeleted, Op.sends, Op.isSend]
      · simp [hdel, recordRoutingDecision, Op.sends, Op.isSend]

lemma routeMessage_sendless {t : MsgType} (ht : isSmfRequest t = true) :
    Only (fun o => o.sends = 0) (routeMessage t seid src) := by
  rcases (isSmfRequest_iff t).mp ht with hb | rfl | rfl | rfl | hdef
  · rw [routeMessage_of_broadcast hb]
    simp [routeBroadcast, recordRoutingDecision, Op.sends, Op.isSend]
  · refine only_bind selectUpf_sendless fun r => ?_
    cases r with
    | none => simp
    | some u =>
      cases seid <;> simp [recordRoutingDecision, recordSessionEstablished, Op.sends, Op.isSend]
  · exact routeAffinity_sendless seid _
  · exact routeAffinity_sendless seid _
  · rw [routeMessage_of_default hdef]
    cases seid with
    | none =>
      refine only_bind selectUpf_sendless fun r => ?_
      cases r <;> simp [recordRoutingDecision, Op.sends, Op.isSend]
    | some s =>
      simp only [routeDefault, Prog.call_bind, only_act]
      refine ⟨rfl, fun r => ?_⟩
      cases r with
      | some u => simp [recordRoutingDecision, Op.sends, Op.isSend]
      | none =>
        refine only_bind selectUpf_sendless fun r => ?_
        cases r <;> simp [recordRoutingDecision, Op.sends, Op.isSend]

end Routing

/-! ### Forwarding -/

section Forwarding

variable (data : List UInt8) (src : SocketAddr) (q : UInt32)

lemma broadcastLoop_work (bs : List SocketAddr) (m : ℕ) :
    CostAtMost (PoolsAtMost n) Op.work (fun _ => True) (broadcastLoop data bs m)
      (3 * bs.length) := by
  induction bs generalizing m with
  | nil => trivial
  | cons b bs ih =>
    simp only [broadcastLoop, recordMessageSent, Prog.call_bind, costAtMost_act, List.length_cons]
    refine ⟨by simp only [Op.work]; omega, fun r _ => ?_⟩
    cases r with
    | true =>
      refine ⟨by simp only [Op.work]; omega, fun _ _ => ⟨by simp only [Op.work]; omega, fun _ _ => ?_⟩⟩
      exact (ih (m + 1)).mono (fun _ h => h) (by simp only [Op.work]; omega)
    | false => exact (ih m).mono (fun _ h => h) (by simp only [Op.work]; omega)

lemma broadcastLoop_sends (bs : List SocketAddr) (m : ℕ) :
    CostAtMost (PoolsAtMost n) Op.sends (fun _ => True) (broadcastLoop data bs m) bs.length := by
  induction bs generalizing m with
  | nil => trivial
  | cons b bs ih =>
    simp only [broadcastLoop, recordMessageSent, Prog.call_bind, costAtMost_act, List.length_cons]
    refine ⟨by simp [Op.sends, Op.isSend], fun r _ => ?_⟩
    cases r with
    | true => exact ⟨by simp [Op.sends, Op.isSend], fun _ _ => ⟨by simp [Op.sends, Op.isSend], fun _ _ => ih _⟩⟩
    | false => exact ih m

lemma forwardRequest_work (dec : RoutingDecision) :
    CostAtMost (PoolsAtMost n) Op.work (fun _ => True) (forwardRequest data src q dec)
      (3 * dec.copies + 2) := by
  cases dec with
  | single u =>
    simp only [forwardRequest, recordMessageSent, Prog.call_bind, costAtMost_act]
    refine ⟨by simp [Op.work], fun _ _ => ⟨by simp [Op.work, RoutingDecision.copies], fun r _ => ?_⟩⟩
    cases r with
    | true => exact ⟨by simp [Op.work, RoutingDecision.copies],
        fun _ _ => ⟨by simp [Op.work, RoutingDecision.copies], fun _ _ => trivial⟩⟩
    | false => exact ⟨by simp [Op.work, RoutingDecision.copies], fun _ _ => trivial⟩
  | broadcast bs =>
    simp only [forwardRequest, Prog.call_bind, costAtMost_act]
    refine ⟨by simp [Op.work], fun _ _ => ?_⟩
    have hend (m : ℕ) : CostAtMost (PoolsAtMost n) Op.work (fun _ => True)
        (if m = 0 then perform (.pendingRemove q) else pure ()) 1 := by
      split <;> simp [Op.work]
    exact (broadcastLoop_work data bs 0).bind fun m _ => hend m
  | _ => trivial

lemma forwardRequest_sends (dec : RoutingDecision) :
    CostAtMost (PoolsAtMost n) Op.sends (fun _ => True) (forwardRequest data src q dec)
      dec.copies := by
  cases dec with
  | single u =>
    simp only [forwardRequest, recordMessageSent, Prog.call_bind, costAtMost_act]
    refine ⟨by simp [Op.sends, Op.isSend],
      fun _ _ => ⟨by simp [Op.sends, Op.isSend, RoutingDecision.copies], fun r _ => ?_⟩⟩
    cases r with
    | true => exact ⟨by simp [Op.sends, Op.isSend],
        fun _ _ => ⟨by simp [Op.sends, Op.isSend], fun _ _ => trivial⟩⟩
    | false => exact ⟨by simp [Op.sends, Op.isSend], fun _ _ => trivial⟩
  | broadcast bs =>
    simp only [forwardRequest, Prog.call_bind, costAtMost_act]
    refine ⟨by simp [Op.sends, Op.isSend], fun _ _ => ?_⟩
    have hend (m : ℕ) : CostAtMost (PoolsAtMost n) Op.sends (fun _ => True)
        (if m = 0 then perform (.pendingRemove q) else pure ()) 0 := by
      split <;> simp [Op.sends, Op.isSend]
    exact (broadcastLoop_sends data bs 0).bind fun m _ => hend m
  | _ => trivial

lemma handleUpfRequest_work (seid : Option UInt64) :
    CostAtMost (PoolsAtMost n) Op.work (fun _ => True) (handleUpfRequest data src seid q) 4 := by
  cases seid with
  | none => trivial
  | some s =>
    simp only [handleUpfRequest, Prog.call_bind, costAtMost_act]
    refine ⟨by simp [Op.work], fun r _ => ?_⟩
    rcases r with _ | ⟨u, a⟩
    · trivial
    · by_cases hu : u = src
      · simp only [hu, if_true, costAtMost_act]
        refine ⟨by simp [Op.work], fun _ _ => ⟨by simp [Op.work], fun ok _ => ?_⟩⟩
        cases ok with
        | true => trivial
        | false => exact ⟨by simp [Op.work], fun _ _ => trivial⟩
      · simp only [hu, if_false]
        trivial

lemma handleUpfRequest_sends (seid : Option UInt64) :
    CostAtMost (PoolsAtMost n) Op.sends (fun _ => True) (handleUpfRequest data src seid q) 1 := by
  cases seid with
  | none => trivial
  | some s =>
    simp only [handleUpfRequest, Prog.call_bind, costAtMost_act]
    refine ⟨by simp [Op.sends, Op.isSend], fun r _ => ?_⟩
    rcases r with _ | ⟨u, a⟩
    · trivial
    · by_cases hu : u = src
      · simp only [hu, if_true, costAtMost_act]
        refine ⟨by simp [Op.sends, Op.isSend], fun _ _ => ⟨by simp [Op.sends, Op.isSend], fun ok _ => ?_⟩⟩
        cases ok with
        | true => trivial
        | false => exact ⟨by simp [Op.sends, Op.isSend], fun _ _ => trivial⟩
      · simp only [hu, if_false]
        trivial

lemma handleResponse_work :
    CostAtMost (PoolsAtMost n) Op.work (fun _ => True) (handleResponse data q) 5 := by
  simp only [handleResponse, recordResponseForwarded, recordResponseDropped, Prog.call_bind,
    Prog.pure_eq, Prog.done_bind, costAtMost_act]
  refine ⟨by simp [Op.work], fun r _ => ?_⟩
  rcases r with _ | ⟨o, b, k, f⟩
  · exact ⟨by simp [Op.work], fun _ _ => trivial⟩
  refine ⟨by simp [Op.work], fun ok _ => ?_⟩
  cases ok with
  | false => trivial
  | true =>
    cases b with
    | false => exact ⟨by simp [Op.work], fun _ _ => ⟨by simp [Op.work], fun _ _ => trivial⟩⟩
    | true =>
      refine ⟨by simp [Op.work], fun bs _ => ⟨by simp [Op.work], fun _ _ => ?_⟩⟩
      split
      · exact ⟨by simp [Op.work], fun _ _ => trivial⟩
      · trivial

lemma handleResponse_sends :
    CostAtMost (PoolsAtMost n) Op.sends (fun _ => True) (handleResponse data q) 1 := by
  simp only [handleResponse, recordResponseForwarded, recordResponseDropped, Prog.call_bind,
    Prog.pure_eq, Prog.done_bind, costAtMost_act]
  refine ⟨by simp [Op.sends, Op.isSend], fun r _ => ?_⟩
  rcases r with _ | ⟨o, b, k, f⟩
  · exact ⟨by simp [Op.sends, Op.isSend], fun _ _ => trivial⟩
  refine ⟨by simp [Op.sends, Op.isSend], fun ok _ => ?_⟩
  cases ok with
  | false => trivial
  | true =>
    cases b with
    | false =>
      exact ⟨by simp [Op.sends, Op.isSend],
        fun _ _ => ⟨by simp [Op.sends, Op.isSend], fun _ _ => trivial⟩⟩
    | true =>
      refine ⟨by simp [Op.sends, Op.isSend],
        fun bs _ => ⟨by simp [Op.sends, Op.isSend], fun _ _ => ?_⟩⟩
      split
      · exact ⟨by simp [Op.sends, Op.isSend], fun _ _ => trivial⟩
      · trivial

end Forwarding

/-! ### Handlers -/

/-- The most operations a handler performs where the pools it reads have at most `n` entries. -/
def mostWork (n : ℕ) : ℕ := 4 * n + 15

/-- The most datagrams the handler of `d` sends: a broadcast is copied to the whole pool. -/
def mostSends (n : ℕ) (d : Datagram) : ℕ :=
  match d.header with
  | none => 0
  | some h => mostCopies n h.msgType

lemma recordMessageReceived_work (t : MsgType) :
    CostAtMost (PoolsAtMost n) Op.work (fun _ => True) (recordMessageReceived t) 2 :=
  ⟨by simp [Op.work], fun _ _ => ⟨by simp [Op.work], fun _ _ => trivial⟩⟩

lemma recordMessageReceived_sends (t : MsgType) :
    CostAtMost (PoolsAtMost n) Op.sends (fun _ => True) (recordMessageReceived t) 0 :=
  ⟨by simp [Op.sends, Op.isSend], fun _ _ => ⟨by simp [Op.sends, Op.isSend], fun _ _ => trivial⟩⟩

lemma mostCopies_le (t : MsgType) : mostCopies n t ≤ n + 1 := by
  unfold mostCopies
  split <;> omega

theorem handleMessage_work (d : Datagram) :
    CostAtMost (PoolsAtMost n) Op.work (fun _ => True) (handleMessage d) (mostWork n) := by
  cases hd : d.header with
  | none => simp [handleMessage, hd]
  | some h =>
    rcases handler_cases h.msgType with hsmf | hupf | hresp
    · rw [handleMessage_smf hd hsmf]
      have hroute := (routeMessage_work (n := n) h.seid d.src hsmf).bind fun dec hdec =>
        (forwardRequest_work d.data d.src h.sequence dec).mono (fun _ h => h)
          (show _ ≤ 3 * (n + 1) + 2 by have := mostCopies_le (n := n) h.msgType; omega)
      refine ((recordMessageReceived_work _).bind fun _ _ => hroute).mono (fun _ h => h) ?_
      unfold mostWork
      omega
    · rw [handleMessage_upf hd hupf]
      refine ((recordMessageReceived_work _).bind fun _ _ =>
        handleUpfRequest_work d.data d.src h.sequence h.seid).mono (fun _ h => h) ?_
      unfold mostWork
      omega
    · rw [handleMessage_response hd hresp]
      refine ((recordMessageReceived_work _).bind fun _ _ =>
        handleResponse_work d.data h.sequence).mono (fun _ h => h) ?_
      unfold mostWork
      omega

theorem handleMessage_sends (hn : 0 < n) (d : Datagram) :
    CostAtMost (PoolsAtMost n) Op.sends (fun _ => True) (handleMessage d) (mostSends n d) := by
  cases hd : d.header with
  | none => simp [handleMessage, hd]
  | some h =>
    have hcopies : 1 ≤ mostCopies n h.msgType := by
      unfold mostCopies
      split <;> omega
    have hmost : mostSends n d = mostCopies n h.msgType := by rw [mostSends, hd]
    rw [hmost]
    rcases handler_cases h.msgType with hsmf | hupf | hresp
    · rw [handleMessage_smf hd hsmf]
      have hroute := ((routeMessage_work (n := n) h.seid d.src hsmf).free
        (routeMessage_sendless h.seid d.src hsmf)).bind fun dec hdec =>
          (forwardRequest_sends d.data d.src h.sequence dec).mono (fun _ h => h) hdec
      refine ((recordMessageReceived_sends _).bind fun _ _ => hroute).mono (fun _ h => h) ?_
      omega
    · rw [handleMessage_upf hd hupf]
      refine ((recordMessageReceived_sends _).bind fun _ _ =>
        handleUpfRequest_sends d.data d.src h.sequence h.seid).mono (fun _ h => h) ?_
      omega
    · rw [handleMessage_response hd hresp]
      refine ((recordMessageReceived_sends _).bind fun _ _ =>
        handleResponse_sends d.data h.sequence).mono (fun _ h => h) ?_
      omega

/-! ### Runs -/

section Runs

variable {p₀ : Proxy} {hist : History} {c : Config Op.Res Proxy Datagram}

lemma length_apply_le {p : UpfPool} {n : ℕ} (hcap : p.maxBackends ≤ n)
    (hlen : p.backends.length ≤ n) (call : PoolCall) : (call.apply p).backends.length ≤ n := by
  cases call with
  | addBackend a =>
    simp only [PoolCall.apply, UpfPool.addBackend]
    split
    · exact hlen
    split
    · exact hlen
    · simp only [UpfPool.orUnchanged, List.length_append, List.length_singleton]
      omega
  | removeBackend a =>
    simp only [PoolCall.apply, UpfPool.removeBackend]
    split
    · exact hlen
    · exact (List.length_filter_le _ _).trans hlen
  | updateHealth a st =>
    rw [← UpfPool.length_addrs, PoolCall.apply, UpfPool.addrs_updateHealth, UpfPool.length_addrs]
    exact hlen

lemma length_afterCalls_le {p : UpfPool} {n : ℕ} (hcap : p.maxBackends ≤ n)
    (hlen : p.backends.length ≤ n) (calls : List PoolCall) :
    (p.afterCalls calls).backends.length ≤ n := by
  induction calls generalizing p with
  | nil => exact hlen
  | cons call calls ih =>
    exact ih (by rwa [UpfPool.apply_maxBackends]) (length_apply_le hcap hlen call)

/-- Every pool that is read in a run is at most as large as the cap or the initial pool. -/
lemma poolsAtMost (hr : Run proxy p₀ hist c) {n : ℕ} (hcap : p₀.upfPool.maxBackends ≤ n)
    (hlen : p₀.upfPool.backends.length ≤ n) (i : ℕ) : ∀ a ∈ acts i hist, PoolsAtMost n a := by
  intro a ha
  obtain ⟨x, pre, y, rfl⟩ := exists_split_of_mem_acts ha
  obtain ⟨c₁, w, hr₁, rfl, hres⟩ := act_exec hr
  have hpool : c₁.shared.upfPool.backends.length ≤ n := by
    rw [(run_backends hr₁).1]
    exact length_afterCalls_le hcap hlen _
  obtain ⟨o, r⟩ := a
  simp only at hres
  subst hres
  cases o with
  | poolHealthyBackends => exact (List.length_filter_le _ _).trans hpool
  | poolAllBackends => exact hpool
  | _ => trivial

lemma totalCost_work (l : Acts) : totalCost Op.work l = l.length := by
  simp [totalCost, Op.work]

lemma totalCost_sends (l : Acts) : totalCost Op.sends l = l.countP fun a => a.op.isSend := by
  induction l with
  | nil => rfl
  | cons a l ih =>
    have hcons : totalCost Op.sends (a :: l) = a.op.sends + totalCost Op.sends l := by
      simp [totalCost]
    rw [hcons, ih, List.countP_cons, Op.sends]
    omega

/-- A task sends no more than its handler can, if the pools it reads are not too large. -/
lemma sends_le_mostSends (hr : Run proxy p₀ hist c) {n i : ℕ} (hn : 0 < n) {d : Datagram}
    (hd : .recv i d ∈ hist) (hpools : ∀ a ∈ acts i hist, PoolsAtMost n a) :
    ((acts i hist).countP fun a => a.op.isSend) ≤ mostSends n d := by
  obtain ⟨p, _, hpath⟩ := hr.handler_path hd
  have hcost := (handleMessage_sends hn d).path hpath hpools
  rwa [totalCost_sends] at hcost

/-- The most entries the pool can have. -/
def largestPool (backends : List SocketAddr) : ℕ := max 64 backends.length

lemma length_copies (l : Acts) : (copies l).length = l.countP fun a => a.op.isSend := by
  rw [copies, List.length_filterMap_eq_countP]
  congr 1
  funext a
  cases a.op <;> rfl

/-- No datagram keeps the proxy busy for long or is multiplied: however the handlers are
interleaved with each other, with changes of the pool and with failing sends, the handler of a
datagram performs a bounded number of operations; it sends a broadcast at most once to each entry
of the pool it has read, any other datagram at most once, and nothing for one that does not parse;
and what it sends are the bytes of the datagram. -/
theorem workload_bounded {backends : List SocketAddr} {strategy : LoadBalancingStrategy}
    (hr : Run proxy (Proxy.new backends strategy) hist c) {i : ℕ} {d : Datagram}
    (hd : .recv i d ∈ hist) :
    (acts i hist).length ≤ mostWork (largestPool backends) ∧
    (copies (acts i hist)).length ≤ mostSends (largestPool backends) d ∧
    (∀ x ∈ copies (acts i hist), x.1 = d.data) ∧
    ∀ h, d.header = some h → isBroadcastRequest h.msgType = true →
      copies (acts i hist) = [] ∨ ∃ bs, ⟨.poolAllBackends, bs⟩ ∈ acts i hist ∧
        copies (acts i hist) <+: bs.map fun b => (d.data, b.addr) := by
  have hok := poolsAtMost hr (n := largestPool backends) (Nat.le_max_left _ _)
    (by simp [Proxy.new, UpfPool.new, largestPool])
  obtain ⟨p, _, hpath⟩ := hr.handler_path hd
  refine ⟨?_, ?_, ?_, fun h hh hb => broadcast_copies_prefix hh hb hpath⟩
  · have hwork := (handleMessage_work d).path hpath (hok i)
    rwa [totalCost_work] at hwork
  · have hpos : 0 < largestPool backends := lt_of_lt_of_le (by decide) (Nat.le_max_left 64 _)
    rw [length_copies]
    exact sends_le_mostSends hr hpos hd (hok i)
  · rintro ⟨data, dst⟩ hx
    obtain ⟨⟨o, r⟩, ha, hcopy⟩ := List.mem_filterMap.mp hx
    cases o with
    | sendTo data' dst' =>
      cases hcopy
      obtain ⟨x, pre, y, rfl⟩ := exists_split_of_mem_acts ha
      obtain ⟨_, h, _, hdata, _⟩ := conduct_of_recv hr hd
      exact hdata
    | _ => cases hcopy

end Runs

/-- The bounds for an establishment. -/
theorem workload_bounded_answered :
    (acts 0 answeredEstablishment.1).length ≤ 271 ∧
      (copies (acts 0 answeredEstablishment.1)).length ≤ 1 := by
  have hreceptions : receptions answeredEstablishment.1 =
      [(0, message .sessionEstablishmentRequest (some 7) 1 smfA),
        (1, message .sessionEstablishmentResponse (some 7) 1 upfX)] := by decide +kernel
  have hd : .recv 0 (message .sessionEstablishmentRequest (some 7) 1 smfA) ∈
      answeredEstablishment.1 := mem_receptions_iff.mp (by simp [hreceptions])
  have hbounds := workload_bounded answeredEstablishment_run hd
  exact ⟨hbounds.1, hbounds.2.1⟩

end PfcpProxy
