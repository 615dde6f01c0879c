import PfcpProxy.Targets
import PfcpProxy.Correlation

/-!
# Direction

The handlers tell the parties apart by the message type alone: a request of an SMF type is
routed to the pool whoever sent it, and a response goes to whoever made the request it
answers. Traffic of UPFs stays away from the pool as long as their requests of an SMF type
find no target and their responses answer no request of a UPF.
-/

namespace PfcpProxy

open AtomicTasks

/-! ### Parties -/

/-- The source of the datagram was in the pool when it was received. -/
def FromPool (p₀ : Proxy) (hist : History) (i : ℕ) (d : Datagram) : Prop :=
  ∃ x y, hist = x ++ .recv i d :: y ∧ d.src ∈ pooled p₀ x

/-- The address is in the pool at some time. -/
def PoolAddress (p₀ : Proxy) (hist : History) (u : SocketAddr) : Prop :=
  ∃ x y, hist = x ++ y ∧ u ∈ pooled p₀ x

/-- Whoever sends an SMF request from outside the pool is never in the pool. -/
def NoSmfPooled (p₀ : Proxy) (hist : History) : Prop :=
  ∀ i d h, .recv i d ∈ hist → d.header = some h → isSmfRequest h.msgType = true →
    ¬FromPool p₀ hist i d → ¬PoolAddress p₀ hist d.src

/-! ### The condition -/

/-- An operation that reads the session table or the pool finds no target there. -/
def FindsNothing (p : Proxy) : Op → Prop
  | .sessionLookup s => p.sessionTable.lookup s = none
  | .poolHealthyBackends => p.upfPool.healthyBackends = []
  | .poolAllBackends => p.upfPool.backends = []
  | _ => True

/-- Requests of an SMF type that come from the pool find no target, and responses that come
from the pool find no entry of a UPF. -/
structure Confined (p₀ : Proxy) (hist : History) : Prop where
  requests : ∀ x i a pre y d h, hist = x ++ .act i a pre :: y → FromPool p₀ hist i d →
    d.header = some h → isSmfRequest h.msgType = true → FindsNothing pre a.op
  responses : ∀ x i q e pre y d info,
    hist = x ++ .act i ⟨.pendingLookupAndIncrement q, e⟩ pre :: y → FromPool p₀ hist i d →
      pre.pendingRequests.get q = some info →
        info.fromUpf = false ∧ (info.isBroadcast = true → ¬PoolAddress p₀ hist info.originAddr)

/-! ### Targets of requests -/

/-- A request that is not broadcast is recorded only for a target the handler has read. -/
def Grounded (l : Acts) (o : Op) : Prop :=
  ∀ q a, o = .pendingInsert q a false false → ∃ u, Known l u

lemma grounded_of_not_opens {l : Acts} {o : Op} (ho : o.opensPending = false) : Grounded l o := by
  rintro q a rfl
  cases ho

lemma broadcastLoop_grounded (data : List UInt8) (us : List SocketAddr) (n : ℕ) (l : Acts) :
    Guarded Grounded (fun _ _ => True) (broadcastLoop data us n) l := by
  induction us generalizing n l with
  | nil => trivial
  | cons u us ih =>
    refine ⟨grounded_of_not_opens rfl, fun ok => ?_⟩
    cases ok with
    | true =>
      exact ⟨grounded_of_not_opens rfl, fun _ => ⟨grounded_of_not_opens rfl, fun _ => ih _ _⟩⟩
    | false => exact ih _ _

lemma forwardRequest_grounded (data : List UInt8) (src : SocketAddr) (q : UInt32)
    {dec : RoutingDecision} {l : Acts} (hdec : Names l dec) :
    Guarded Grounded (fun _ _ => True) (forwardRequest data src q dec) l := by
  cases dec with
  | single u =>
    refine ⟨fun _ _ _ => ⟨u, hdec⟩, fun _ => ⟨grounded_of_not_opens rfl, fun ok => ?_⟩⟩
    cases ok with
    | true =>
      exact ⟨grounded_of_not_opens rfl, fun _ => ⟨grounded_of_not_opens rfl, fun _ => trivial⟩⟩
    | false => exact ⟨grounded_of_not_opens rfl, fun _ => trivial⟩
  | broadcast us =>
    simp only [forwardRequest, Prog.call_bind, guarded_act]
    refine ⟨fun q a h => ?_, fun _ => ?_⟩
    · cases h
    rw [guarded_bind]
    apply (broadcastLoop_grounded data us 0 _).mono (fun _ _ hI => hI)
    intro n l' _
    split
    · exact ⟨grounded_of_not_opens rfl, fun _ => trivial⟩
    · trivial
  | _ => trivial

lemma handleMessage_grounded (d : Datagram) :
    Guarded Grounded (fun _ _ => True) (handleMessage d) [] := by
  by_cases hsmf : ∃ h, d.header = some h ∧ isSmfRequest h.msgType = true
  · obtain ⟨h, hd, hsmf⟩ := hsmf
    rw [handleMessage_smf hd hsmf]
    simp only [recordMessageReceived, Prog.call_bind, Prog.act_bind, guarded_act, guarded_bind]
    refine ⟨grounded_of_not_opens rfl, fun _ => ⟨grounded_of_not_opens rfl, fun _ => ?_⟩⟩
    have hrouting (l : Acts) :
        Guarded Grounded (fun _ _ => True) (routeMessage h.msgType h.seid d.src) l := by
      apply guarded_of_only (routeMessage_only hsmf h.seid d.src) (fun _ => True) trivial
      · rintro l o _ ho
        refine ⟨?_, fun _ => trivial⟩
        rintro q a rfl
        cases ho
      · exact fun _ _ _ => trivial
    apply ((hrouting _).and (routeMessage_targets (d := d) hsmf h.seid d.src _)).mono
      (fun _ _ hI => hI.1)
    exact fun dec l' hdec => forwardRequest_grounded _ _ _ hdec.2
  · -- the other handlers record reports only
    apply (handleMessage_conduct d).mono ?_ (fun _ _ _ => trivial)
    rintro l o ⟨h, hd, hI⟩ q a rfl
    obtain ⟨_, _, hreq, _, hupf, _⟩ := hI
    exact absurd ⟨h, hd, by simpa [isRequest, ← hupf] using hreq⟩ hsmf

/-! ### Runs -/

section Runs

variable {p₀ : Proxy} {hist : History} {c : Config Op.Res Proxy Datagram} {i : ℕ} {d : Datagram}
  {h : Header} {u a : SocketAddr} {q : UInt32}

lemma FromPool.mem (hd : FromPool p₀ hist i d) : .recv i d ∈ hist := by
  obtain ⟨x, y, rfl, _⟩ := hd
  simp

/-- Every pending entry was inserted as it is, apart from its count. -/
lemma pending_inserted (hp₀ : p₀.pendingRequests = Table.empty) {info : RequestInfo}
    (hr : Run proxy p₀ hist c) (hget : c.shared.pendingRequests.get q = some info) :
    ∃ i, ⟨.pendingInsert q info.originAddr info.isBroadcast info.fromUpf, ()⟩ ∈ acts i hist := by
  induction hr generalizing info with
  | nil => simp [hp₀] at hget
  | @snoc hist c c' e hr hs ih =>
    have hkeep {info : RequestInfo} (hget : c.shared.pendingRequests.get q = some info) :
        ∃ i, ⟨.pendingInsert q info.originAddr info.isBroadcast info.fromUpf, ()⟩ ∈
          acts i (hist ++ [e]) := by
      obtain ⟨j, hj⟩ := ih hget
      exact ⟨j, by rw [acts_append]; exact List.mem_append_left _ hj⟩
    cases hs with
    | recv d => exact hkeep hget
    | env e => exact hkeep (get_of_envStep hget)
    | act i d o k w hi =>
      by_cases ho : o.pendingKey = some q
      · cases o with
        | pendingInsert q' a b f =>
          cases ho
          simp only [proxy, exec, PendingRequests.insert, Table.get_insert_self,
            Option.some.injEq] at hget
          subst hget
          exact ⟨i, by simp⟩
        | pendingLookupAndIncrement q' =>
          cases ho
          simp only [proxy, exec, PendingRequests.lookupAndIncrement, Table.get_modify_self,
            Option.map_eq_some_iff] at hget
          obtain ⟨info', hget', rfl⟩ := hget
          obtain ⟨j, hj⟩ := hkeep hget'
          exact ⟨j, hj⟩
        | pendingRemove q' =>
          cases ho
          simp [proxy, exec, PendingRequests.remove] at hget
        | _ => cases ho
      · apply hkeep
        rw [← hget]
        exact (exec_pending_of_ne ho _ _).symm

/-- A request of an SMF type that comes from the pool knows no target. -/
lemma Confined.unknown (hcond : Confined p₀ hist) (hr : Run proxy p₀ hist c)
    (hd : FromPool p₀ hist i d) (hh : d.header = some h) (hsmf : isSmfRequest h.msgType = true) :
    ¬Known (acts i hist) u := by
  rintro (⟨bs, hread | hread, b, hb, _⟩ | ⟨s, hlook⟩)
  · obtain ⟨x, pre, y, hsplit⟩ := exists_split_of_mem_acts hread
    have hnone := hcond.requests x i _ pre y d h hsplit hd hh hsmf
    subst hsplit
    obtain ⟨c₁, w, _, rfl, hres⟩ := act_exec hr
    obtain rfl : bs = [] := hres.trans hnone
    cases hb
  · obtain ⟨x, pre, y, hsplit⟩ := exists_split_of_mem_acts hread
    have hnone := hcond.requests x i _ pre y d h hsplit hd hh hsmf
    subst hsplit
    obtain ⟨c₁, w, _, rfl, hres⟩ := act_exec hr
    obtain rfl : bs = [] := hres.trans hnone
    cases hb
  · obtain ⟨x, pre, y, hsplit⟩ := exists_split_of_mem_acts hlook
    have hnone := hcond.requests x i _ pre y d h hsplit hd hh hsmf
    subst hsplit
    obtain ⟨c₁, w, _, rfl, hres⟩ := act_exec hr
    have hsome : some u = none := hres.trans hnone
    cases hsome

lemma inserted_outside (hr : Run proxy p₀ hist c) (hout : NoSmfPooled p₀ hist)
    (hcond : Confined p₀ hist) {s : UInt64}
    (hins : ⟨.sessionInsert s u a, ()⟩ ∈ acts i hist) : ¬PoolAddress p₀ hist a := by
  obtain ⟨x, pre, y, hsplit⟩ := exists_split_of_mem_acts hins
  obtain ⟨d, hd, h, hh, _, rfl, _, htype⟩ := conduct_of_act (hsplit ▸ hr)
  have hsmf : isSmfRequest h.msgType = true := by
    rw [isSmfRequest_iff]
    exact htype.elim (fun ht => .inr (.inl ht)) fun ht => .inr (.inr (.inr (.inr ht.1)))
  apply hout i d h (hsplit ▸ List.mem_append_left _ hd) hh hsmf
  intro hpool
  obtain ⟨d', _, hoffered⟩ := (hsplit ▸ hr).act_guarded handleMessage_targets
  have hknown := Known.append (.inl hoffered) (acts i (.act i ⟨.sessionInsert s u d.src, ()⟩ pre :: y))
  rw [← acts_append, ← hsplit] at hknown
  exact hcond.unknown hr hpool hh hsmf hknown

/-- Whoever a request of an SMF type is recorded for, unless it is broadcast, is never in the
pool. -/
lemma recorded_outside (hr : Run proxy p₀ hist c) (hout : NoSmfPooled p₀ hist)
    (hcond : Confined p₀ hist) (hins : ⟨.pendingInsert q a false false, ()⟩ ∈ acts i hist) :
    ¬PoolAddress p₀ hist a := by
  obtain ⟨x, pre, y, hsplit⟩ := exists_split_of_mem_acts hins
  obtain ⟨d, hd, h, hh, _, rfl, hreq, _, hupf, _⟩ := conduct_of_act (hsplit ▸ hr)
  have hsmf : isSmfRequest h.msgType = true := by simpa [isRequest, ← hupf] using hreq
  apply hout i d h (hsplit ▸ List.mem_append_left _ hd) hh hsmf
  intro hpool
  obtain ⟨d', _, hground⟩ := (hsplit ▸ hr).act_guarded handleMessage_grounded
  obtain ⟨u, hu⟩ := hground q d.src rfl
  have hknown := hu.append (acts i (.act i ⟨.pendingInsert q d.src false false, ()⟩ pre :: y))
  rw [← acts_append, ← hsplit] at hknown
  exact hcond.unknown hr hpool hh hsmf hknown

/-- Direction separation under the condition: what comes from the pool is not sent to an
address that is ever in the pool. -/
theorem direction_separated (hp₀ : p₀.sessionTable = Table.empty)
    (hq₀ : p₀.pendingRequests = Table.empty) (hr : Run proxy p₀ hist c)
    (hout : NoSmfPooled p₀ hist) (hcond : Confined p₀ hist) (hd : FromPool p₀ hist i d)
    {data : List UInt8} {ok : Bool} (hsent : ⟨.sendTo data u, ok⟩ ∈ acts i hist) :
    ¬PoolAddress p₀ hist u := by
  obtain ⟨x, pre, y, hsplit⟩ := exists_split_of_mem_acts hsent
  have hr' := hsplit ▸ hr
  obtain ⟨hdx, h, hh, _, _, hcase⟩ := conduct_of_recv hr' (hsplit ▸ hd.mem)
  rcases hcase with ⟨hreq, _, _, hreport⟩ | ⟨hresp, _, r, hfound, rfl⟩
  · cases hupf : isUpfRequest h.msgType with
    | true =>
      -- a report goes to the SMF of its session
      obtain ⟨s, _, hlook⟩ := hreport hupf
      obtain ⟨x', pre', y', hsplit'⟩ := exists_split_of_mem_acts hlook
      subst hsplit'
      rw [List.append_assoc, List.cons_append] at hsplit
      obtain ⟨c₁, w, hr₁, rfl, hres⟩ := act_exec (hsplit ▸ hr)
      obtain ⟨j, hins⟩ := session_origin hp₀ hr₁ hres.symm
      refine inserted_outside (i := j) (s := s) (u := d.src) hr hout hcond ?_
      rw [hsplit, acts_append]
      exact List.mem_append_left _ hins
    | false =>
      -- a request of an SMF type would need a target
      have hsmf : isSmfRequest h.msgType = true := by simpa [isRequest, hupf] using hreq
      obtain ⟨d', hd', htarget⟩ := hr'.act_guarded handleMessage_targets
      obtain rfl := hr'.recv_unique (List.mem_append_left _ hdx) (List.mem_append_left _ hd')
      have hknown := (htarget h hh hsmf).append (acts i (.act i ⟨.sendTo data u, ok⟩ pre :: y))
      rw [← acts_append, ← hsplit] at hknown
      exact absurd hknown (hcond.unknown hr hd hh hsmf)
  · -- a response goes to whoever is recorded under its sequence number
    obtain ⟨x', pre', y', hsplit'⟩ := exists_split_of_mem_acts hfound
    subst hsplit'
    rw [List.append_assoc, List.cons_append] at hsplit
    obtain ⟨c₁, w, hr₁, rfl, hres⟩ := act_exec (hsplit ▸ hr)
    obtain ⟨info, hget, hinfo⟩ := Option.map_eq_some_iff.mp hres.symm
    subst hinfo
    obtain ⟨hflag, hbroadcast⟩ := hcond.responses _ _ _ _ _ _ d info hsplit hd hget
    cases hb : info.isBroadcast with
    | true => exact hbroadcast hb
    | false =>
      obtain ⟨j, hins⟩ := pending_inserted hq₀ hr₁ hget
      rw [hb, hflag] at hins
      refine recorded_outside (i := j) (q := h.sequence) hr hout hcond ?_
      rw [hsplit, acts_append]
      exact List.mem_append_left _ hins

end Runs

/-- A lookup that finds an entry of a UPF or of a broadcast. -/
def isReversed : Event Op.Res Proxy Datagram Env → Bool
  | .act _ ⟨.pendingLookupAndIncrement q, _⟩ pre =>
    (pre.pendingRequests.get q).any (fun info => info.fromUpf || info.isBroadcast)
  | _ => false

/-- The response to an establishment goes to the SMF. -/
theorem direction_separated_response :
    ¬PoolAddress (Proxy.new [upfX, upfY] .roundRobin) answeredEstablishment.1 smfA := by
  let d₀ := message .sessionEstablishmentRequest (some 7) 1 smfA
  let d₁ := message .sessionEstablishmentResponse (some 7) 1 upfX
  have hr := answeredEstablishment_run
  have hrecv : receptions answeredEstablishment.1 = [(0, d₀), (1, d₁)] := rfl
  have hpooled : ∀ n < answeredEstablishment.1.length + 1,
      pooled (Proxy.new [upfX, upfY] .roundRobin) (answeredEstablishment.1.take n) =
        [upfX, upfY] := by decide +kernel
  have hkept : answeredEstablishment.1.all (fun e => !isReversed e) = true := by decide +kernel
  have hcases {i : ℕ} {d : Datagram} (hd : .recv i d ∈ answeredEstablishment.1) :
      i = 0 ∧ d = d₀ ∨ i = 1 ∧ d = d₁ := by
    rw [← mem_receptions_iff, hrecv] at hd
    simpa using hd
  have hfrom {i : ℕ} {d : Datagram}
      (hd : FromPool (Proxy.new [upfX, upfY] .roundRobin) answeredEstablishment.1 i d) :
      d.src ∈ [upfX, upfY] := by
    obtain ⟨x, y, hxy, hsrc⟩ := hd
    rwa [pooled_of_take hpooled hxy] at hsrc
  have hout : NoSmfPooled (Proxy.new [upfX, upfY] .roundRobin) answeredEstablishment.1 := by
    rintro i d h hd hh hsmf _ ⟨x, y, hxy, hsrc⟩
    rw [pooled_of_take hpooled hxy] at hsrc
    rcases hcases hd with ⟨_, rfl⟩ | ⟨_, rfl⟩
    · exact absurd hsrc (by decide)
    · cases hh
      cases hsmf
  have hcond : Confined (Proxy.new [upfX, upfY] .roundRobin) answeredEstablishment.1 := by
    constructor
    · intro x i a pre y d h _ hd hh hsmf
      rcases hcases hd.mem with ⟨_, rfl⟩ | ⟨_, rfl⟩
      · exact absurd (hfrom hd) (by decide)
      · cases hh
        cases hsmf
    · intro x i q e pre y d info hsplit _ hget
      have hnot := List.all_eq_true.mp hkept (.act i ⟨.pendingLookupAndIncrement q, e⟩ pre)
        (by simp [hsplit])
      simp only [isReversed, hget, Option.any_some, Bool.not_eq_true', Bool.or_eq_false_iff] at hnot
      exact ⟨hnot.1, fun hb => by simp [hb] at hnot⟩
  have hd : FromPool (Proxy.new [upfX, upfY] .roundRobin) answeredEstablishment.1 1 d₁ := by
    have h₁ : .recv 1 d₁ ∈ answeredEstablishment.1 := mem_receptions_iff.mp (by simp [hrecv])
    obtain ⟨x, y, hxy⟩ := List.append_of_mem h₁
    refine ⟨x, y, hxy, ?_⟩
    rw [pooled_of_take hpooled hxy]
    decide
  have hsent : ⟨.sendTo d₁.data smfA, true⟩ ∈ acts 1 answeredEstablishment.1 := by decide +kernel
  exact direction_separated rfl rfl hr hout hcond hd hsent

/-- A heartbeat that a UPF sends. -/
def heartbeatOfUpf : History × Config Op.Res Proxy Datagram :=
  played [upfX, upfY] .roundRobin (oneByOne 0 [message .heartbeatRequest none 1 upfX])

/-- The heartbeat of a UPF is sent to the other UPF. -/
theorem direction_separated_fails :
    ¬∀ (backends : List SocketAddr) (strategy : LoadBalancingStrategy) (hist : History)
      (c : Config Op.Res Proxy Datagram), Run proxy (Proxy.new backends strategy) hist c →
      NoSmfPooled (Proxy.new backends strategy) hist →
      ∀ i d, FromPool (Proxy.new backends strategy) hist i d →
        ∀ x data u ok pre y, hist = x ++ .act i ⟨.sendTo data u, ok⟩ pre :: y →
          u ∉ pooled (Proxy.new backends strategy) x := by
  intro h
  let d := message .heartbeatRequest none 1 upfX
  have hrecv : receptions heartbeatOfUpf.1 = [(0, d)] := rfl
  have hpooled : ∀ n < heartbeatOfUpf.1.length + 1,
      pooled (Proxy.new [upfX, upfY] .roundRobin) (heartbeatOfUpf.1.take n) = [upfX, upfY] := by
    decide +kernel
  have hd : FromPool (Proxy.new [upfX, upfY] .roundRobin) heartbeatOfUpf.1 0 d := by
    have h₀ : .recv 0 d ∈ heartbeatOfUpf.1 := mem_receptions_iff.mp (by simp [hrecv])
    obtain ⟨x, y, hxy⟩ := List.append_of_mem h₀
    refine ⟨x, y, hxy, ?_⟩
    rw [pooled_of_take hpooled hxy]
    decide
  have hout : NoSmfPooled (Proxy.new [upfX, upfY] .roundRobin) heartbeatOfUpf.1 := by
    intro i d' _ hd' _ _ hnot
    rw [← mem_receptions_iff, hrecv, List.mem_singleton, Prod.mk.injEq] at hd'
    obtain ⟨rfl, rfl⟩ := hd'
    exact absurd hd hnot
  have hsent : ⟨.sendTo d.data upfY, true⟩ ∈ acts 0 heartbeatOfUpf.1 := by decide +kernel
  obtain ⟨x, pre, y, hsplit⟩ := exists_split_of_mem_acts hsent
  apply h [upfX, upfY] .roundRobin _ _ (played_run _ _ _) hout 0 d hd x _ _ _ pre y hsplit
  rw [pooled_of_take hpooled hsplit]
  decide

end PfcpProxy
