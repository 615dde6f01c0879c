import PfcpProxy.Association
import PfcpProxy.Direction
import PfcpProxy.Lib.Cost

/-!
# Where entries and destinations come from

Nothing in the two tables is made up: sessions and pending requests are those of received
requests, and a session is on a UPF that was eligible while its request was handled. With that, a
datagram goes to an address that has been in the pool, or to one that has sent a matching request.
-/

namespace PfcpProxy

open AtomicTasks

/-! ### Requests that may record a session -/

/-- An establishment, or a request of the last arm. -/
def RecordsSession (t : MsgType) : Prop :=
  t = .sessionEstablishmentRequest ∨ isDefaultRequest t = true

lemma RecordsSession.smf {t : MsgType} (ht : RecordsSession t) : isSmfRequest t = true := by
  rw [isSmfRequest_iff]
  exact ht.elim (fun h => .inr (.inl h)) fun h => .inr (.inr (.inr (.inr h)))

lemma selectUpf_eligible : Only (· ≠ .poolAllBackends) selectUpf := by
  apply selectUpf_only.mono
  rintro o ho rfl
  cases ho

lemma routeMessage_eligible {t : MsgType} (ht : RecordsSession t) (seid : Option UInt64)
    (a : SocketAddr) : Only (· ≠ .poolAllBackends) (routeMessage t seid a) := by
  rcases ht with rfl | hdef
  · refine only_bind selectUpf_eligible fun r => ?_
    cases r with
    | none => simp
    | some u => cases seid <;> simp [recordRoutingDecision, recordSessionEstablished]
  · rw [routeMessage_of_default hdef]
    cases seid with
    | none =>
      refine only_bind selectUpf_eligible fun r => ?_
      cases r <;> simp [recordRoutingDecision]
    | some s =>
      simp only [routeDefault, Prog.call_bind, only_act]
      refine ⟨by simp, fun r => ?_⟩
      cases r with
      | some u => simp [recordRoutingDecision]
      | none =>
        refine only_bind selectUpf_eligible fun r => ?_
        cases r <;> simp [recordRoutingDecision]

lemma handleMessage_eligible {d : Datagram} {h : Header} (hd : d.header = some h)
    (ht : RecordsSession h.msgType) : Only (· ≠ .poolAllBackends) (handleMessage d) := by
  rw [handleMessage_smf hd ht.smf]
  refine only_bind (by simp [recordMessageReceived]) fun _ =>
    only_bind (routeMessage_eligible ht h.seid d.src) fun dec => ?_
  apply (forwardRequest_ops d.data d.src h.sequence dec).mono
  rintro o (⟨b, rfl⟩ | ⟨a, rfl⟩ | rfl | ⟨a, rfl⟩ | rfl) <;> simp

/-! ### Tables -/

section Runs

variable {p₀ : Proxy} {hist : History} {c : Config Op.Res Proxy Datagram} {i : ℕ} {d : Datagram}
  {h : Header} {s : UInt64} {u a : SocketAddr} {q : UInt32}

/-- Task `i` has read the eligible backends while the address was that of one. -/
def ReadEligible (hist : History) (i : ℕ) (u : SocketAddr) : Prop :=
  ∃ x pre y, hist = x ++ .act i ⟨.poolHealthyBackends, pre.upfPool.healthyBackends⟩ pre :: y ∧
    ∃ b ∈ pre.upfPool.healthyBackends, b.addr = u

lemma readEligible_of_offered (hr : Run proxy p₀ hist c) (hd : .recv i d ∈ hist)
    (hh : d.header = some h) (ht : RecordsSession h.msgType) (ho : Offered (acts i hist) u) :
    ReadEligible hist i u := by
  obtain ⟨bs, hread | hread, hb⟩ := ho
  · obtain ⟨x, pre, y, rfl⟩ := exists_split_of_mem_acts hread
    obtain ⟨c₁, w, _, _, hres⟩ := act_exec hr
    obtain rfl : bs = pre.upfPool.healthyBackends := hres
    exact ⟨x, pre, y, rfl, hb⟩
  · obtain ⟨_, _, hpath⟩ := hr.handler_path hd
    exact absurd rfl (hpath.only (handleMessage_eligible hh ht) _ hread)

/-- Task `i` handles a request under the SEID from `a`, has read that the backend `u` is eligible,
and has recorded the session. -/
structure FoundsSession (hist : History) (i : ℕ) (s : UInt64) (u a : SocketAddr) : Prop where
  request : ∃ d h, .recv i d ∈ hist ∧ d.header = some h ∧ h.seid = some s ∧ d.src = a ∧
    RecordsSession h.msgType
  eligible : ReadEligible hist i u
  recorded : ⟨.sessionInsert s u a, ()⟩ ∈ acts i hist

theorem session_founded (hp₀ : p₀.sessionTable = Table.empty) (hr : Run proxy p₀ hist c)
    (hget : c.shared.sessionTable.lookupFull s = some (u, a)) :
    ∃ i, FoundsSession hist i s u a := by
  obtain ⟨i, hins⟩ := session_origin hp₀ hr hget
  obtain ⟨x, pre, y, rfl⟩ := exists_split_of_mem_acts hins
  obtain ⟨d, hd, h, hh, hs, rfl, _, htype⟩ := conduct_of_act hr
  obtain ⟨d', _, ho⟩ := hr.act_guarded handleMessage_targets
  have ht : RecordsSession h.msgType := htype.imp id And.left
  have hd' : .recv i d ∈ x ++ .act i ⟨.sessionInsert s u d.src, ()⟩ pre :: y :=
    List.mem_append_left _ hd
  refine ⟨i, ⟨d, h, hd', hh, hs, rfl, ht⟩, readEligible_of_offered hr hd' hh ht ?_, hins⟩
  rw [acts_append]
  exact Offered.append ho _

/-- Task `i` handles the request that the pending entry is for, and has recorded it. -/
structure FoundsPending (hist : History) (i : ℕ) (q : UInt32) (info : RequestInfo) : Prop where
  request : ∃ d h, .recv i d ∈ hist ∧ d.header = some h ∧ h.sequence = q ∧
    d.src = info.originAddr ∧ isRequest h.msgType = true ∧
    info.isBroadcast = isBroadcastRequest h.msgType ∧ info.fromUpf = isUpfRequest h.msgType
  recorded : ⟨.pendingInsert q info.originAddr info.isBroadcast info.fromUpf, ()⟩ ∈ acts i hist

theorem pending_founded (hq₀ : p₀.pendingRequests = Table.empty) (hr : Run proxy p₀ hist c)
    {info : RequestInfo} (hget : c.shared.pendingRequests.get q = some info) :
    ∃ i, FoundsPending hist i q info := by
  obtain ⟨i, hins⟩ := pending_inserted hq₀ hr hget
  obtain ⟨x, pre, y, rfl⟩ := exists_split_of_mem_acts hins
  obtain ⟨d, hd, h, hh, hq, ha, hreq, hb, hf, _⟩ := conduct_of_act hr
  exact ⟨i, ⟨d, h, List.mem_append_left _ hd, hh, hq.symm, ha.symm, hreq, hb, hf⟩, hins⟩

end Runs

/-! ### Counting responses -/

/-- The datagram is a response with this sequence number. -/
def Datagram.responds (d : Datagram) (q : UInt32) : Bool :=
  d.header.any fun h => !isRequest h.msgType && h.sequence = q

/-- Only the lookups under `q` count. -/
def Op.lookups (q : UInt32) (o : Op) : ℕ := if o = .pendingLookupAndIncrement q then 1 else 0

lemma lookups_of_ne {q : UInt32} {o : Op} (ho : o ≠ .pendingLookupAndIncrement q) :
    o.lookups q = 0 := if_neg ho

lemma lookups_of_request {d : Datagram} {h : Header} (hd : d.header = some h)
    (ht : isRequest h.msgType = true) (q : UInt32) :
    Only (fun o => o.lookups q = 0) (handleMessage d) := by
  have hrecord : Only (fun o => o.lookups q = 0) (recordMessageReceived h.msgType) := by
    simp [recordMessageReceived, Op.lookups]
  cases hsmf : isSmfRequest h.msgType with
  | true =>
    rw [handleMessage_smf hd hsmf]
    refine only_bind hrecord fun _ => only_bind ?_ fun dec => ?_
    · apply (routeMessage_only hsmf h.seid d.src).mono
      rintro o ho
      apply lookups_of_ne
      rintro rfl
      cases ho
    · apply (forwardRequest_ops d.data d.src h.sequence dec).mono
      rintro o (⟨b, rfl⟩ | ⟨a, rfl⟩ | rfl | ⟨a, rfl⟩ | rfl) <;> exact lookups_of_ne (by simp)
  | false =>
    have hupf : isUpfRequest h.msgType = true := by simpa [isRequest, hsmf] using ht
    rw [handleMessage_upf hd hupf]
    refine only_bind hrecord fun _ => ?_
    apply (handleUpfRequest_ops d.data d.src h.seid h.sequence).mono
    rintro o (⟨s, -, rfl⟩ | rfl | ⟨a, rfl⟩ | rfl) <;> exact lookups_of_ne (by simp)

lemma handleResponse_lookups {ok : Act Op.Res → Prop} (q q' : UInt32) (data : List UInt8) :
    CostAtMost ok (Op.lookups q) (fun _ => True) (handleResponse data q') (if q' = q then 1 else 0) := by
  have hlookup : (Op.pendingLookupAndIncrement q').lookups q = if q' = q then 1 else 0 := by
    simp [Op.lookups]
  simp only [handleResponse, recordResponseForwarded, recordResponseDropped, Prog.call_bind,
    Prog.pure_eq, Prog.done_bind, costAtMost_act]
  refine ⟨hlookup.le, fun r _ => costAtMost_of_only ?_ _⟩
  rcases r with _ | ⟨o, b, k, f⟩
  · simp [Op.lookups]
  refine ⟨lookups_of_ne (by simp), fun ok => ?_⟩
  cases ok with
  | false => trivial
  | true =>
    cases b with
    | false => exact ⟨lookups_of_ne (by simp), fun _ => ⟨lookups_of_ne (by simp), fun _ => trivial⟩⟩
    | true =>
      refine ⟨lookups_of_ne (by simp), fun bs => ⟨lookups_of_ne (by simp), fun _ => ?_⟩⟩
      split
      · exact ⟨lookups_of_ne (by simp), fun _ => trivial⟩
      · trivial

/-- A handler looks an entry up once if its datagram is a response, and never otherwise. -/
lemma handleMessage_lookups {ok : Act Op.Res → Prop} (q : UInt32) (d : Datagram) :
    CostAtMost ok (Op.lookups q) (fun _ => True) (handleMessage d)
      (if d.responds q then 1 else 0) := by
  cases hd : d.header with
  | none => simp [handleMessage, hd]
  | some h =>
    cases hreq : isRequest h.msgType with
    | true => exact costAtMost_of_only (lookups_of_request hd hreq q) _
    | false =>
      have hrecord : Only (fun o => o.lookups q = 0) (recordMessageReceived h.msgType) := by
        simp [recordMessageReceived, Op.lookups]
      have hresponds : d.responds q = decide (h.sequence = q) := by
        simp [Datagram.responds, hd, hreq]
      have hresponse : CostAtMost ok (Op.lookups q) (fun _ => True)
          (handleResponse d.data h.sequence) (if h.sequence = q then 1 else 0) :=
        handleResponse_lookups q h.sequence d.data
      have hboth := (costAtMost_of_only hrecord 0).bind fun _ _ => hresponse
      rw [handleMessage_response hd hreq, hresponds]
      simpa using hboth

section Counts

variable {p₀ : Proxy} {hist : History} {c : Config Op.Res Proxy Datagram} {q : UInt32}

/-- A pending entry has counted no more responses than were looked up. -/
lemma responses_le_lookups (hq₀ : p₀.pendingRequests = Table.empty) (hr : Run proxy p₀ hist c)
    {info : RequestInfo} (hget : c.shared.pendingRequests.get q = some info) :
    info.responsesReceived ≤ totalCost (Op.lookups q) (allActs hist) := by
  induction hr generalizing info with
  | nil => simp [hq₀] at hget
  | @snoc hist c c' e hr hs ih =>
    rw [allActs_append, totalCost_append]
    cases hs with
    | recv d =>
      have hbefore := ih hget
      omega
    | env e =>
      have hbefore := ih (get_of_envStep hget)
      omega
    | act i d o k w hi =>
      by_cases ho : o.pendingKey = some q
      · cases o with
        | pendingInsert q' a b f =>
          cases ho
          simp only [proxy, exec, PendingRequests.insert, Table.get_insert_self,
            Option.some.injEq] at hget
          subst hget
          exact Nat.zero_le _
        | pendingLookupAndIncrement q' =>
          cases ho
          simp only [proxy, exec, PendingRequests.lookupAndIncrement, Table.get_modify_self,
            Option.map_eq_some_iff] at hget
          obtain ⟨info', hget', rfl⟩ := hget
          have hbefore := ih hget'
          simp only [totalCost, allActs, List.filterMap_cons, List.filterMap_nil, List.map_cons,
            List.map_nil, List.sum_cons, List.sum_nil, Op.lookups, if_true] at hbefore ⊢
          omega
        | pendingRemove q' =>
          cases ho
          simp [proxy, exec, PendingRequests.remove] at hget
        | _ => cases ho
      · have hbefore : info.responsesReceived ≤ totalCost (Op.lookups q) (allActs hist) := by
          apply ih
          rw [← hget]
          exact (exec_pending_of_ne ho _ _).symm
        omega

lemma lookups_le_received (hr : Run proxy p₀ hist c) :
    totalCost (Op.lookups q) (allActs hist) ≤
      (receptions hist).countP fun x => x.2.responds q := by
  have hhandler (d : Datagram) : CostAtMost (fun _ => True) (Op.lookups q) (fun _ => True)
      (handleMessage d) (if d.responds q then 1 else 0) := handleMessage_lookups q d
  have hcost := hr.totalCost_le hhandler fun _ _ _ => trivial
  rwa [sum_map_ite_one] at hcost

lemma responses_le_received (hq₀ : p₀.pendingRequests = Table.empty) (hr : Run proxy p₀ hist c)
    {info : RequestInfo} (hget : c.shared.pendingRequests.get q = some info) :
    info.responsesReceived ≤ (receptions hist).countP fun x => x.2.responds q :=
  (responses_le_lookups hq₀ hr hget).trans (lookups_le_received hr)

end Counts

/-- The tables hold nothing that was not asked for: in every reachable state a session belongs to
a received request with its SEID, from its SMF, and its UPF was eligible while that request was
handled; a pending entry belongs to a received request with its sequence number, from its origin,
and has counted no more responses than have been received. -/
theorem tables_founded {backends : List SocketAddr} {strategy : LoadBalancingStrategy}
    {hist : History} {c : Config Op.Res Proxy Datagram}
    (hr : Run proxy (Proxy.new backends strategy) hist c) :
    (∀ s u a, c.shared.sessionTable.lookupFull s = some (u, a) →
      ∃ i, FoundsSession hist i s u a) ∧
    ∀ q info, c.shared.pendingRequests.get q = some info →
      (∃ i, FoundsPending hist i q info) ∧
        info.responsesReceived ≤ (receptions hist).countP fun x => x.2.responds q := by
  refine ⟨fun s u a hget => session_founded rfl hr hget, fun q info hget => ⟨?_, ?_⟩⟩
  · exact pending_founded rfl hr hget
  · exact responses_le_received rfl hr hget

/-- The session and the pending entry of an establishment. -/
theorem tables_founded_established :
    (∃ i, FoundsSession establishedByA.1 i 7 upfX smfA) ∧
      ∃ i, FoundsPending establishedByA.1 i 1 ⟨smfA, 0, false, 0, false⟩ := by
  have hr : Run proxy (Proxy.new [upfX, upfY] .roundRobin) establishedByA.1 establishedByA.2 :=
    played_run _ _ _
  have hfounded := tables_founded hr
  exact ⟨hfounded.1 7 upfX smfA (by decide +kernel), (hfounded.2 1 _ (by decide +kernel)).1⟩

/-- Where task `i` may send its datagram `d`: a request of an SMF to an address that has been in the
pool, a report to the SMF of a session that its source has in the table when it is looked up, a
response to the origin of a request with its sequence number that is pending when it is looked
up. -/
structure Warranted (p₀ : Proxy) (hist : History) (i : ℕ) (d : Datagram) (h : Header)
    (dst : SocketAddr) : Prop where
  request : isSmfRequest h.msgType = true → PoolAddress p₀ hist dst
  report : isUpfRequest h.msgType = true → ∃ x pre y s j,
    hist = x ++ .act i ⟨.sessionLookupFull s, some (d.src, dst)⟩ pre :: y ∧ h.seid = some s ∧
    pre.sessionTable.lookupFull s = some (d.src, dst) ∧ FoundsSession x j s d.src dst
  response : isRequest h.msgType = false → ∃ x r pre y info j,
    hist = x ++ .act i ⟨.pendingLookupAndIncrement h.sequence, r⟩ pre :: y ∧
    pre.pendingRequests.get h.sequence = some info ∧ info.originAddr = dst ∧
    FoundsPending x j h.sequence info

/-- Whatever a handler sends is warranted by what was received before. -/
lemma warranted {p₀ : Proxy} {x y : History} {c : Config Op.Res Proxy Datagram} {i : ℕ}
    {data : List UInt8} {dst : SocketAddr} {ok : Bool} {pre : Proxy}
    (hp₀ : p₀.sessionTable = Table.empty) (hq₀ : p₀.pendingRequests = Table.empty)
    (hr : Run proxy p₀ (x ++ .act i ⟨.sendTo data dst, ok⟩ pre :: y) c) :
    ∃ d h, .recv i d ∈ x ∧ d.header = some h ∧ data = d.data ∧ Warranted p₀ x i d h dst := by
  obtain ⟨c₁, hr₁⟩ := hr.of_append
  obtain ⟨d, hd, h, hh, hdata, _, hcase⟩ := conduct_of_act hr
  refine ⟨d, h, hd, hh, hdata, fun hsmf => ?_, fun hupf => ?_, fun hresp => ?_⟩
  · obtain ⟨d', hd', htarget⟩ := hr.act_guarded handleMessage_targets
    obtain rfl := hr₁.recv_unique hd hd'
    have hA : PoolWithin p₀ x {u | PoolAddress p₀ x u} := fun z t hz u hu => ⟨z, t, hz, hu⟩
    exact known_within hp₀ hr₁ hA (htarget h hh hsmf)
  · rcases hcase with ⟨_, _, _, hreport⟩ | ⟨hresp, _⟩
    · obtain ⟨s, hs, hlook⟩ := hreport hupf
      obtain ⟨z, pre', t, rfl⟩ := exists_split_of_mem_acts hlook
      obtain ⟨c₂, w, hr₂, rfl, hres⟩ := act_exec hr₁
      obtain ⟨j, hj⟩ := session_founded hp₀ hr₂ hres.symm
      exact ⟨z, c₂.shared, t, s, j, rfl, hs, hres.symm, hj⟩
    · simp [isRequest, hupf] at hresp
  · rcases hcase with ⟨hreq, _⟩ | ⟨_, _, r, hlook, rfl⟩
    · rw [hresp] at hreq
      cases hreq
    · obtain ⟨z, pre', t, rfl⟩ := exists_split_of_mem_acts hlook
      obtain ⟨c₂, w, hr₂, rfl, hres⟩ := act_exec hr₁
      obtain ⟨info, hget, rfl⟩ := Option.map_eq_some_iff.mp hres.symm
      obtain ⟨j, hj⟩ := pending_founded hq₀ hr₂ hget
      exact ⟨z, _, c₂.shared, t, info, j, rfl, hget, rfl, hj⟩

/-- The proxy sends nothing to strangers: in whatever interleaving, a request of an SMF goes to an
address that has been in the pool, a report to the SMF of a session that the table has on its
source, and a response to the origin of a request with its sequence number that is pending. -/
theorem destinations_founded {backends : List SocketAddr} {strategy : LoadBalancingStrategy}
    {x y : History} {c : Config Op.Res Proxy Datagram} {i : ℕ} {data : List UInt8}
    {dst : SocketAddr} {ok : Bool} {pre : Proxy}
    (hr : Run proxy (Proxy.new backends strategy) (x ++ .act i ⟨.sendTo data dst, ok⟩ pre :: y) c) :
    ∃ d h, .recv i d ∈ x ∧ d.header = some h ∧ data = d.data ∧
      Warranted (Proxy.new backends strategy) x i d h dst :=
  warranted rfl rfl hr

/-- The response to an establishment goes to where the establishment has come from. -/
theorem destinations_founded_answered : ∃ d h, .recv 1 d ∈ answeredEstablishment.1.take 17 ∧
    d.header = some h ∧ d.data = [0x21] ∧ Warranted (Proxy.new [upfX, upfY] .roundRobin)
      (answeredEstablishment.1.take 17) 1 d h smfA := by
  have hat : actAt answeredEstablishment.1 17 = some (1, ⟨.sendTo [0x21] smfA, true⟩) := by
    decide +kernel
  obtain ⟨pre, hsplit⟩ := split_at hat
  have hr := answeredEstablishment_run
  rw [hsplit] at hr
  obtain ⟨d, h, hd, hh, hdata, hw⟩ := destinations_founded hr
  exact ⟨d, h, hd, hh, hdata.symm, hw⟩

end PfcpProxy
