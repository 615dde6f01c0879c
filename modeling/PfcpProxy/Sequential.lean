import PfcpProxy.Conduct
import PfcpProxy.Selection

/-!
# Handling one message alone

What the handler of a datagram decides and leaves behind when nothing interferes: the
routing decision, the session table and the session counters as functions of the state and
the header, and the part of the state each later phase leaves alone.
-/

namespace PfcpProxy

open AtomicTasks

/-- The state after the handler of `d` has run to its end; `ω` decides its sends. -/
abbrev handled (ω : ℕ → Bool) (d : Datagram) (p : Proxy) : Outcome Op.Res Proxy Unit :=
  run exec (handleMessage d) ω p

/-- The state after `recordMessageReceived`. -/
def Proxy.received (p : Proxy) (t : MsgType) : Proxy :=
  { p with stats := (p.stats.fetchAdd .totalMessagesReceived).countMsgType t }

section Received

variable (p : Proxy) (t : MsgType)

@[simp] lemma received_sessionTable : (p.received t).sessionTable = p.sessionTable := rfl

@[simp] lemma received_pendingRequests : (p.received t).pendingRequests = p.pendingRequests := rfl

@[simp] lemma received_upfPool : (p.received t).upfPool = p.upfPool := rfl

@[simp] lemma received_now : (p.received t).now = p.now := rfl

@[simp] lemma received_established :
    (p.received t).stats.sessionsEstablished = p.stats.sessionsEstablished := rfl

@[simp] lemma received_deleted :
    (p.received t).stats.sessionsDeleted = p.stats.sessionsDeleted := rfl

lemma run_recordMessageReceived (ω : ℕ → Bool) :
    run exec (recordMessageReceived t) ω p = ⟨(), p.received t,
      [⟨.fetchAdd .totalMessagesReceived, ()⟩, ⟨.countMsgType t, ()⟩]⟩ := rfl

end Received

/-! ### Routing -/

/-- The decision routing comes to in the state `p`. -/
def routeDecision (p : Proxy) (t : MsgType) (seid : Option UInt64) : RoutingDecision :=
  if isBroadcastRequest t then .broadcast (p.upfPool.backends.map (·.addr))
  else if t = .sessionEstablishmentRequest then
    match chooseUpf p.upfPool p.sessionTable with
    | some u => .single u
    | none => .noBackend
  else if t = .sessionModificationRequest ∨ t = .sessionDeletionRequest then
    match seid with
    | none => .noSeid
    | some s =>
      match p.sessionTable.lookup s with
      | some u => .single u
      | none => .sessionNotFound
  else
    match seid.bind p.sessionTable.lookup with
    | some u => .single u
    | none =>
      match chooseUpf p.upfPool p.sessionTable with
      | some u => .single u
      | none => .noBackend

/-- The session table routing leaves. -/
def routedTable (p : Proxy) (t : MsgType) (seid : Option UInt64) (src : SocketAddr) :
    SessionTable :=
  match seid with
  | none => p.sessionTable
  | some s =>
    if t = .sessionEstablishmentRequest ∨
        isDefaultRequest t = true ∧ p.sessionTable.lookup s = none then
      match chooseUpf p.upfPool p.sessionTable with
      | some u => p.sessionTable.insert p.now s u src
      | none => p.sessionTable
    else if t = .sessionDeletionRequest ∧ p.sessionTable.lookup s ≠ none then
      p.sessionTable.remove s
    else p.sessionTable

/-- What routing an SMF request comes to. -/
structure Routes (p : Proxy) (t : MsgType) (seid : Option UInt64) (src : SocketAddr)
    (x : Outcome Op.Res Proxy RoutingDecision) : Prop where
  value : x.value = routeDecision p t seid
  sessionTable : x.state.sessionTable = routedTable p t seid src
  pendingRequests : x.state.pendingRequests = p.pendingRequests
  backends : x.state.upfPool.backends = p.upfPool.backends
  now : x.state.now = p.now
  established : x.state.stats.sessionsEstablished = p.stats.sessionsEstablished +
    if t = .sessionEstablishmentRequest ∧ chooseUpf p.upfPool p.sessionTable ≠ none then 1 else 0
  deleted : x.state.stats.sessionsDeleted = p.stats.sessionsDeleted +
    if t = .sessionDeletionRequest ∧ seid.bind p.sessionTable.lookup ≠ none then 1 else 0

variable (p : Proxy) {t : MsgType} (seid : Option UInt64) (src : SocketAddr) (ω : ℕ → Bool)

lemma run_routeBroadcast (ht : isBroadcastRequest t = true) :
    Routes p t seid src (run exec routeBroadcast ω p) := by
  have hne : t ≠ .sessionEstablishmentRequest ∧ t ≠ .sessionDeletionRequest ∧
      isDefaultRequest t = false := by
    cases t <;> simp_all [isBroadcastRequest, isDefaultRequest]
  constructor
  · simp only [routeDecision, ht, if_true]
    rfl
  · cases seid <;> simp [routedTable, hne, routeBroadcast, recordRoutingDecision, run_act, exec]
  · rfl
  · rfl
  · rfl
  · simp [hne, routeBroadcast, recordRoutingDecision, run_act, exec, Statistics.fetchAdd]
  · simp [hne, routeBroadcast, recordRoutingDecision, run_act, exec, Statistics.fetchAdd]

lemma run_routeEstablishment :
    Routes p .sessionEstablishmentRequest seid src (run exec (routeEstablishment seid src) ω p) := by
  obtain ⟨hv, hs⟩ := run_selectUpf ω p
  unfold routeEstablishment
  rw [run_bind, hv, hs]
  cases hc : chooseUpf p.upfPool p.sessionTable with
  | none =>
    constructor <;> cases seid <;> simp [routeDecision, routedTable, isBroadcastRequest, hc]
  | some u =>
    constructor <;> cases seid <;> simp [routeDecision, routedTable, isBroadcastRequest, hc,
      run_act, exec, recordRoutingDecision, recordSessionEstablished, Statistics.fetchAdd]

lemma run_routeAffinity (ht : t = .sessionModificationRequest ∨ t = .sessionDeletionRequest) :
    Routes p t seid src (run exec (routeAffinity t seid) ω p) := by
  have hb : isBroadcastRequest t = false := by rcases ht with rfl | rfl <;> rfl
  have hd : isDefaultRequest t = false := by rcases ht with rfl | rfl <;> rfl
  have he : t ≠ .sessionEstablishmentRequest := by rcases ht with rfl | rfl <;> simp
  cases seid with
  | none => constructor <;> simp [routeAffinity, routeDecision, routedTable, hb, he, ht]
  | some s =>
    simp only [routeAffinity, Prog.call_bind, run_act, exec]
    cases hl : p.sessionTable.lookup s with
    | none => constructor <;> simp [routeDecision, routedTable, hb, hd, he, ht, hl]
    | some u =>
      rcases ht with rfl | rfl
      · constructor <;> simp [routeDecision, routedTable, isBroadcastRequest, isDefaultRequest, hl,
          run_act, exec, recordRoutingDecision, Statistics.fetchAdd]
      · constructor <;> simp [routeDecision, routedTable, isBroadcastRequest, isDefaultRequest, hl,
          run_act, exec, recordRoutingDecision, recordSessionDeleted, Statistics.fetchAdd]

lemma run_routeDefault (ht : isDefaultRequest t = true) :
    Routes p t seid src (run exec (routeDefault seid src) ω p) := by
  obtain ⟨_, hb, he, hm, hdel⟩ := isDefaultRequest_ne ht
  cases seid with
  | none =>
    obtain ⟨hv, hs⟩ := run_selectUpf ω p
    unfold routeDefault
    simp only
    rw [run_bind, hv, hs]
    cases hc : chooseUpf p.upfPool p.sessionTable with
    | none => constructor <;> simp [routeDecision, routedTable, he, hdel, hm, hb, hc]
    | some u =>
      constructor <;> simp [routeDecision, routedTable, he, hdel, hm, hb, hc, run_act, exec,
        recordRoutingDecision, Statistics.fetchAdd]
  | some s =>
    simp only [routeDefault, Prog.call_bind, run_act, exec]
    cases hl : p.sessionTable.lookup s with
    | some u =>
      constructor <;> simp [routeDecision, routedTable, he, hdel, hm, hb, hl, run_act, exec,
        recordRoutingDecision, Statistics.fetchAdd]
    | none =>
      obtain ⟨hv, hs⟩ := run_selectUpf (fun n => ω (n + 1)) p
      simp only
      rw [run_bind, hv, hs]
      cases hc : chooseUpf p.upfPool p.sessionTable with
      | none => constructor <;> simp [routeDecision, routedTable, he, hdel, hm, hb, hc, hl]
      | some u =>
        constructor <;> simp [routeDecision, routedTable, ht, he, hdel, hm, hb, hc, hl, run_act,
          exec, recordRoutingDecision, Statistics.fetchAdd]

/-- Uninterrupted routing of an SMF request. -/
theorem run_routeMessage (ht : isSmfRequest t = true) :
    Routes p t seid src (run exec (routeMessage t seid src) ω p) := by
  rcases (isSmfRequest_iff t).mp ht with hb | rfl | rfl | rfl | hdef
  · rw [routeMessage_of_broadcast hb]
    exact run_routeBroadcast p seid src ω hb
  · exact run_routeEstablishment p seid src ω
  · exact run_routeAffinity p seid src ω (.inl rfl)
  · exact run_routeAffinity p seid src ω (.inr rfl)
  · rw [routeMessage_of_default hdef]
    exact run_routeDefault p seid src ω hdef

lemma routeMessage_unsent (ht : isSmfRequest t = true) :
    Unsent (run exec (routeMessage t seid src) ω p).acts := by
  have hidle : Idle [] := by simp [Idle]
  exact ((routeMessage_conduct (d := ⟨[], src, some ⟨t, seid, 0⟩⟩) rfl ht hidle).path
    (run_path exec _ ω p)).1

/-! ### Whole handlers -/

/-- The part of the state that only routing changes. -/
structure SameSessions (p p' : Proxy) : Prop where
  sessionTable : p'.sessionTable = p.sessionTable
  established : p'.stats.sessionsEstablished = p.stats.sessionsEstablished
  deleted : p'.stats.sessionsDeleted = p.stats.sessionsDeleted
  upfPool : p'.upfPool = p.upfPool
  now : p'.now = p.now

lemma exec_relay {o : Op} (ho : o.isRelay = true ∨ ∃ s, o = .sessionLookupFull s) (w : Bool)
    (p' : Proxy) (hp : SameSessions p p') : SameSessions p (exec o w p').2 := by
  obtain ⟨h₁, h₂, h₃, h₄, h₅⟩ := hp
  rcases ho with ho | ⟨s, rfl⟩
  · cases o with
    | fetchAdd c => cases c <;> first | exact ⟨h₁, h₂, h₃, h₄, h₅⟩ | cases ho
    | _ => first | exact ⟨h₁, h₂, h₃, h₄, h₅⟩ | cases ho
  · exact ⟨h₁, h₂, h₃, h₄, h₅⟩

lemma run_relay {α : Type} {f : Handler α}
    (hf : Only (fun o => o.isRelay = true ∨ ∃ s, o = .sessionLookupFull s) f) :
    SameSessions p (run exec f ω p).state :=
  run_of_only exec hf (SameSessions p) (fun _ w p' ho hp => exec_relay p ho w p' hp) ω p
    ⟨rfl, rfl, rfl, rfl, rfl⟩

lemma run_forwardRequest_sessions (data : List UInt8) (q : UInt32) (dec : RoutingDecision) :
    SameSessions p (run exec (forwardRequest data src q dec) ω p).state :=
  run_relay p ω ((forwardRequest_only data src q dec).mono fun _ => .inl)

lemma handled_smf {d : Datagram} {h : Header} (hd : d.header = some h)
    (ht : isSmfRequest h.msgType = true) :
    ∃ x k, Routes p h.msgType h.seid d.src x ∧ Unsent x.acts ∧
      (handled ω d p).state = (run exec (forwardRequest d.data d.src h.sequence
        (routeDecision p h.msgType h.seid)) (fun n => ω (n + k)) x.state).state ∧
      (handled ω d p).acts =
        [⟨.fetchAdd .totalMessagesReceived, ()⟩, ⟨.countMsgType h.msgType, ()⟩] ++ (x.acts ++
          (run exec (forwardRequest d.data d.src h.sequence
            (routeDecision p h.msgType h.seid)) (fun n => ω (n + k)) x.state).acts) := by
  have hroutes := run_routeMessage (p.received h.msgType) h.seid d.src (fun n => ω (n + 2)) ht
  have hunsent := routeMessage_unsent (p.received h.msgType) h.seid d.src (fun n => ω (n + 2)) ht
  have hv : (run exec (routeMessage h.msgType h.seid d.src) (fun n => ω (n + 2))
      (p.received h.msgType)).value = routeDecision p h.msgType h.seid := hroutes.value
  rw [handled, handleMessage_smf hd ht, run_bind, run_recordMessageReceived]
  simp only [List.length_cons, List.length_nil]
  rw [run_bind, hv]
  refine ⟨_, _ + 2, ⟨hv, hroutes.sessionTable, hroutes.pendingRequests, hroutes.backends,
    hroutes.now, hroutes.established, hroutes.deleted⟩, hunsent, rfl, rfl⟩

lemma routedTable_of_not_smf {t : MsgType} (ht : isSmfRequest t = false) :
    routedTable p t seid src = p.sessionTable := by
  cases seid with
  | none => rfl
  | some s => cases t <;> simp_all [routedTable, isSmfRequest, isDefaultRequest]

/-- The session table and the session counters after a message was handled alone. -/
theorem handled_sessions {d : Datagram} {h : Header} (hd : d.header = some h) :
    (handled ω d p).state.sessionTable = routedTable p h.msgType h.seid d.src ∧
    (handled ω d p).state.stats.sessionsEstablished = p.stats.sessionsEstablished +
      (if h.msgType = .sessionEstablishmentRequest ∧ chooseUpf p.upfPool p.sessionTable ≠ none
        then 1 else 0) ∧
    (handled ω d p).state.stats.sessionsDeleted = p.stats.sessionsDeleted +
      (if h.msgType = .sessionDeletionRequest ∧ h.seid.bind p.sessionTable.lookup ≠ none
        then 1 else 0) := by
  cases hsmf : isSmfRequest h.msgType with
  | true =>
    obtain ⟨x, k, hx, _, hstate, _⟩ := handled_smf p ω hd hsmf
    have hsame := run_forwardRequest_sessions x.state d.src (fun n => ω (n + k)) d.data h.sequence
      (routeDecision p h.msgType h.seid)
    rw [hstate, hsame.sessionTable, hsame.established, hsame.deleted]
    exact ⟨hx.sessionTable, hx.established, hx.deleted⟩
  | false =>
    have hest : h.msgType ≠ .sessionEstablishmentRequest := by
      intro ht
      simp [ht, isSmfRequest] at hsmf
    have hdel : h.msgType ≠ .sessionDeletionRequest := by
      intro ht
      simp [ht, isSmfRequest] at hsmf
    rw [routedTable_of_not_smf p h.seid d.src hsmf]
    simp only [hest, hdel, false_and, if_false, UInt64.add_zero]
    have hrun : ∃ (f : Handler Unit) (k : ℕ), Only (fun o => o.isRelay = true ∨
        ∃ s, o = .sessionLookupFull s) f ∧
        (handled ω d p).state = (run exec f (fun n => ω (n + k)) (p.received h.msgType)).state := by
      cases hupf : isUpfRequest h.msgType with
      | true =>
        refine ⟨_, 2, handleUpfRequest_only d.data d.src h.seid h.sequence, ?_⟩
        rw [handled, handleMessage_upf hd hupf, run_bind, run_recordMessageReceived]
        rfl
      | false =>
        refine ⟨_, 2, (handleResponse_only d.data h.sequence).mono fun _ => .inl, ?_⟩
        have hresp : isRequest h.msgType = false := by simp [isRequest, hsmf, hupf]
        rw [handled, handleMessage_response hd hresp, run_bind, run_recordMessageReceived]
        rfl
    obtain ⟨f, k, hf, hstate⟩ := hrun
    have hsame := run_relay (p.received h.msgType) (fun n => ω (n + k)) hf
    rw [hstate, hsame.sessionTable, hsame.established, hsame.deleted]
    exact ⟨rfl, rfl, rfl⟩

lemma handled_unparsed {d : Datagram} (hd : d.header = none) : handled ω d p = ⟨(), p, []⟩ := by
  simp [handled, handleMessage, hd]

/-! ### What is sent -/

/-- Among the acts `l`, `data` is sent to `u` and nothing is sent elsewhere. -/
def SendsTo (data : List UInt8) (u : SocketAddr) (l : Acts) : Prop :=
  (∃ ok, ⟨.sendTo data u, ok⟩ ∈ l) ∧
    ∀ data' v ok, ⟨.sendTo data' v, ok⟩ ∈ l → data' = data ∧ v = u

lemma forwardRequest_single_sends (data : List UInt8) (q : UInt32) (u : SocketAddr) :
    SendsTo data u (run exec (forwardRequest data src q (.single u)) ω p).acts := by
  simp only [SendsTo, forwardRequest, recordMessageSent, Prog.call_bind, run_act, exec]
  cases ω 1 <;> simp [run_act, Prog.call]

/-- Whatever routing decides without naming a target is not sent. -/
def RoutingDecision.isFailure : RoutingDecision → Bool
  | .single _ | .broadcast _ => false
  | _ => true

lemma forwardRequest_failure (data : List UInt8) (q : UInt32) {dec : RoutingDecision}
    (hdec : dec.isFailure = true) : forwardRequest data src q dec = .done () := by
  cases dec <;> first | rfl | cases hdec

lemma handled_single_sends {d : Datagram} {h : Header} (hd : d.header = some h)
    (ht : isSmfRequest h.msgType = true) {u : SocketAddr}
    (hdec : routeDecision p h.msgType h.seid = .single u) :
    SendsTo d.data u (handled ω d p).acts := by
  obtain ⟨x, k, _, hx, _, hacts⟩ := handled_smf p ω hd ht
  rw [hdec] at hacts
  obtain ⟨⟨ok, hok⟩, honly⟩ := forwardRequest_single_sends x.state d.src (fun n => ω (n + k))
    d.data h.sequence u
  rw [hacts]
  refine ⟨⟨ok, by simp [hok]⟩, ?_⟩
  intro data v ok' hsent
  simp only [List.mem_append, List.mem_cons, List.not_mem_nil, Act.mk.injEq,
    reduceCtorEq, false_and, or_self, false_or] at hsent
  rcases hsent with hsent | hsent
  · exact absurd (hx _ hsent).2 (by simp [Op.isSend])
  · exact honly data v ok' hsent

lemma handled_failure_sends {d : Datagram} {h : Header} (hd : d.header = some h)
    (ht : isSmfRequest h.msgType = true)
    (hdec : (routeDecision p h.msgType h.seid).isFailure = true) (data : List UInt8)
    (v : SocketAddr) (ok : Bool) : ⟨.sendTo data v, ok⟩ ∉ (handled ω d p).acts := by
  obtain ⟨x, k, _, hx, _, hacts⟩ := handled_smf p ω hd ht
  rw [hacts, forwardRequest_failure d.src d.data h.sequence hdec]
  intro hsent
  simp only [List.mem_append, List.mem_cons, List.not_mem_nil, or_false, Act.mk.injEq,
    reduceCtorEq, false_and, or_self, false_or, run_done] at hsent
  exact absurd (hx _ hsent).2 (by simp [Op.isSend])

/-! ### Requests of UPFs -/

lemma handled_upf {d : Datagram} {h : Header} (hd : d.header = some h)
    (ht : isUpfRequest h.msgType = true) :
    handled ω d p =
      ⟨(), (run exec (handleUpfRequest d.data d.src h.seid h.sequence) (fun n => ω (n + 2))
          (p.received h.msgType)).state,
        [⟨.fetchAdd .totalMessagesReceived, ()⟩, ⟨.countMsgType h.msgType, ()⟩] ++
          (run exec (handleUpfRequest d.data d.src h.seid h.sequence) (fun n => ω (n + 2))
            (p.received h.msgType)).acts⟩ := by
  rw [handled, handleMessage_upf hd ht, run_bind, run_recordMessageReceived]
  rfl

/-- The SMF a report of `src` is forwarded to. -/
def reportTarget (p : Proxy) (seid : Option UInt64) (src : SocketAddr) : Option SocketAddr :=
  match seid.bind p.sessionTable.lookupFull with
  | some (u, smf) => if u = src then some smf else none
  | none => none

/-- A report whose source is not the recorded UPF is not forwarded. -/
lemma run_handleUpfRequest_none (data : List UInt8) (q : UInt32)
    (htarget : reportTarget p seid src = none) :
    (run exec (handleUpfRequest data src seid q) ω p).state = p ∧
    ∀ a ∈ (run exec (handleUpfRequest data src seid q) ω p).acts, a.op.isSend = false := by
  cases seid with
  | none => simp [handleUpfRequest]
  | some s =>
    simp only [handleUpfRequest, Prog.call_bind, run_act, exec]
    simp only [reportTarget, Option.bind_some] at htarget
    cases hl : p.sessionTable.lookupFull s with
    | none => simp [Op.isSend]
    | some e =>
      obtain ⟨u, smf⟩ := e
      by_cases hu : u = src
      · simp [hl, hu] at htarget
      · simp [hu, Op.isSend]

/-- A report of the recorded UPF is forwarded to the recorded SMF, and rolled back where that
fails. -/
lemma run_handleUpfRequest_some (data : List UInt8) (q : UInt32) {smf : SocketAddr}
    (htarget : reportTarget p seid src = some smf) :
    (run exec (handleUpfRequest data src seid q) ω p).state.pendingRequests =
      (if ω 2 then p.pendingRequests.insert p.now q src false true
        else (p.pendingRequests.insert p.now q src false true).remove q) ∧
    (run exec (handleUpfRequest data src seid q) ω p).state.sessionTable = p.sessionTable ∧
    SendsTo data smf (run exec (handleUpfRequest data src seid q) ω p).acts ∧
    ⟨.sendTo data smf, ω 2⟩ ∈ (run exec (handleUpfRequest data src seid q) ω p).acts := by
  cases seid with
  | none => simp [reportTarget] at htarget
  | some s =>
    simp only [reportTarget, Option.bind_some] at htarget
    simp only [handleUpfRequest, SendsTo, Prog.call_bind, run_act, exec]
    cases hl : p.sessionTable.lookupFull s with
    | none => simp [hl] at htarget
    | some e =>
      obtain ⟨u, smf'⟩ := e
      by_cases hu : u = src
      · obtain rfl : smf' = smf := by simpa [hl, hu] using htarget
        simp only [hu, if_true, run_act, exec]
        cases ω 2 <;> simp [Prog.call, run_act, exec]
      · simp [hl, hu] at htarget

end PfcpProxy
