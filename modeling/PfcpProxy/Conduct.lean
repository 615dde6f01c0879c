import PfcpProxy.Handlers

/-!
# Conduct of a handler

What a handler has done before it performs an operation other tasks can notice. `Conduct`
is stated once for all handlers and proved by walking through them; results about
interleavings read it off at every entry of a history.
-/

namespace PfcpProxy

open AtomicTasks

abbrev Acts := List (Act Op.Res)

/-- Operations of the routing phase that change neither table and send nothing. -/
def Op.isQuiet : Op → Bool
  | .sessionInsert _ _ _ | .sessionRemove _ | .pendingInsert _ _ _ _
  | .pendingLookupAndIncrement _ | .pendingRemove _ | .sendTo _ _ => false
  | .fetchAdd c => c ≠ .responsesDropped
  | _ => true

/-- The operations backend selection is made of. -/
def Op.isSelection : Op → Bool
  | .sessionCountByUpf _ | .poolStrategy | .poolHealthyBackends | .poolNextIndex => true
  | _ => false

def Op.isSend : Op → Bool
  | .sendTo _ _ => true
  | _ => false

/-- Nothing but quiet operations was performed. -/
def Idle (l : Acts) : Prop := ∀ a ∈ l, a.op.isQuiet = true

/-- No pending request was written and nothing was sent. -/
def Unsent (l : Acts) : Prop := ∀ a ∈ l, a.op.writesPending = false ∧ a.op.isSend = false

/-- Every send failed. -/
def AllSendsFailed (l : Acts) : Prop := ∀ data dst, ⟨.sendTo data dst, true⟩ ∉ l

/-- What a handler of `d` has done before it performs `o`. -/
def Conduct (d : Datagram) (l : Acts) (o : Op) : Prop :=
  ∃ h, d.header = some h ∧
    match o with
    | .sessionInsert s _ a => h.seid = some s ∧ a = d.src ∧ Idle l ∧
        (h.msgType = .sessionEstablishmentRequest ∨
          isDefaultRequest h.msgType = true ∧ ⟨.sessionLookup s, none⟩ ∈ l)
    | .sessionRemove s => h.seid = some s ∧ h.msgType = .sessionDeletionRequest ∧ Idle l ∧
        ∃ u, ⟨.sessionLookup s, some u⟩ ∈ l
    | .pendingInsert q a b f => q = h.sequence ∧ a = d.src ∧ isRequest h.msgType = true ∧
        b = isBroadcastRequest h.msgType ∧ f = isUpfRequest h.msgType ∧ Unsent l
    | .pendingLookupAndIncrement q => q = h.sequence ∧ isRequest h.msgType = false ∧ Unsent l
    | .pendingRemove q => q = h.sequence ∧
        (isRequest h.msgType = true ∧ AllSendsFailed l ∧
            ⟨.pendingInsert q d.src (isBroadcastRequest h.msgType) (isUpfRequest h.msgType), ()⟩ ∈ l ∨
          isRequest h.msgType = false ∧ ∃ r, ⟨.pendingLookupAndIncrement q, some r⟩ ∈ l ∧
            ⟨.sendTo d.data r.1, true⟩ ∈ l)
    | .sendTo data dst => data = d.data ∧ (∀ q, ⟨.pendingRemove q, ()⟩ ∉ l) ∧
        (isRequest h.msgType = true ∧
            ⟨.pendingInsert h.sequence d.src (isBroadcastRequest h.msgType)
              (isUpfRequest h.msgType), ()⟩ ∈ l ∧
            (isBroadcastRequest h.msgType = false → ∀ a ∈ l, a.op.isSend = false) ∧
            (isUpfRequest h.msgType = true →
              ∃ s, h.seid = some s ∧ ⟨.sessionLookupFull s, some (d.src, dst)⟩ ∈ l) ∨
          isRequest h.msgType = false ∧ (∀ a ∈ l, a.op.isSend = false) ∧
            ∃ r, ⟨.pendingLookupAndIncrement h.sequence, some r⟩ ∈ l ∧ dst = r.1)
    | .fetchAdd .responsesDropped =>
        isRequest h.msgType = false ∧ ⟨.pendingLookupAndIncrement h.sequence, none⟩ ∈ l
    | _ => True

lemma conduct_of_quiet {d : Datagram} {h : Header} (hd : d.header = some h) (l : Acts) {o : Op}
    (ho : o.isQuiet = true) : Conduct d l o := by
  refine ⟨h, hd, ?_⟩
  cases o with
  | fetchAdd c => cases c <;> trivial
  | _ => trivial

lemma Op.not_writes_of_quiet {o : Op} (ho : o.isQuiet = true) :
    o.writesSession = false ∧ o.writesPending = false ∧ o.isSend = false := by
  cases o <;> simp_all [Op.isQuiet, Op.writesSession, Op.writesPending, Op.isSend]

lemma Idle.snoc {l : Acts} (hl : Idle l) {o : Op} (ho : o.isQuiet = true) (r : o.Res) :
    Idle (l ++ [⟨o, r⟩]) := by
  intro a ha
  rw [List.mem_append, List.mem_singleton] at ha
  rcases ha with ha | rfl
  · exact hl a ha
  · exact ho

lemma Idle.append {l l' : Acts} (hl : Idle l) (hl' : Idle l') : Idle (l ++ l') := by
  intro a ha
  rcases List.mem_append.mp ha with ha | ha
  · exact hl a ha
  · exact hl' a ha

lemma Idle.unsent {l : Acts} (hl : Idle l) : Unsent l :=
  fun a ha => (Op.not_writes_of_quiet (hl a ha)).2

lemma Unsent.snoc {l : Acts} (hl : Unsent l) {o : Op} (hw : o.writesPending = false)
    (hs : o.isSend = false) (r : o.Res) : Unsent (l ++ [⟨o, r⟩]) := by
  intro a ha
  rw [List.mem_append, List.mem_singleton] at ha
  rcases ha with ha | rfl
  · exact hl a ha
  · exact ⟨hw, hs⟩

/-! ### Selection reads only -/

lemma leastSessionsLoop_only (bs : List UpfBackend) (n : ℕ) (sel : Option SocketAddr) :
    Only (fun o => o.isSelection = true) (leastSessionsLoop bs n sel) := by
  induction bs generalizing n sel with
  | nil => simp [leastSessionsLoop]
  | cons b bs ih =>
    simp only [leastSessionsLoop, Prog.call_bind, only_act]
    refine ⟨rfl, fun r => ?_⟩
    split <;> exact ih _ _

lemma selectRoundRobin_only : Only (fun o => o.isSelection = true) selectRoundRobin := by
  simp only [selectRoundRobin, Prog.call_bind, only_act]
  refine ⟨rfl, fun r => ?_⟩
  split <;> simp [Op.isSelection]

lemma selectUpf_only : Only (fun o => o.isSelection = true) selectUpf := by
  simp only [selectUpf, Prog.call_bind, only_act]
  refine ⟨rfl, fun r => ?_⟩
  cases r with
  | roundRobin => exact selectRoundRobin_only
  | leastSessions =>
    simp only [selectLeastSessions, Prog.call_bind, only_act]
    refine ⟨rfl, fun r => ?_⟩
    split
    · simp
    · exact leastSessionsLoop_only _ _ _
  | weighted =>
    simp only [selectWeighted, Prog.call_bind, only_act]
    refine ⟨rfl, fun r => ?_⟩
    split
    · simp
    · split
      · exact selectRoundRobin_only
      · simp [Op.isSelection]

/-- Acts of backend selection alone. -/
def Selecting (l : Acts) : Prop := ∀ a ∈ l, a.op.isSelection = true

lemma Op.quiet_of_selection {o : Op} (ho : o.isSelection = true) : o.isQuiet = true := by
  cases o <;> simp_all [Op.isSelection, Op.isQuiet]

lemma Selecting.idle {l : Acts} (hl : Selecting l) : Idle l :=
  fun a ha => Op.quiet_of_selection (hl a ha)

lemma guarded_selectUpf {I : Acts → Op → Prop} {Q : Option SocketAddr → Acts → Prop} {l : Acts}
    (hI : ∀ l o, o.isSelection = true → I l o)
    (hQ : ∀ r l', Selecting l' → Q r (l ++ l')) : Guarded I Q selectUpf l := by
  refine guarded_of_only selectUpf_only (fun l' => ∃ x, l' = l ++ x ∧ Selecting x)
    ⟨[], by simp [Selecting]⟩ ?_ ?_
  · rintro _ o ⟨x, rfl, hx⟩ ho
    refine ⟨hI _ o ho, fun r => ⟨x ++ [⟨o, r⟩], by simp, ?_⟩⟩
    intro a ha
    rw [List.mem_append, List.mem_singleton] at ha
    rcases ha with ha | rfl
    · exact hx a ha
    · exact ho
  · rintro r _ ⟨x, rfl, hx⟩
    exact hQ r x hx

/-! ### What follows routing -/

/-- What a handler records about its sends, and the pool size it compares a count with. -/
def Op.recordsRelay : Op → Bool
  | .poolAllBackends | .countUpfMessage _ => true
  | .fetchAdd c => c = .totalMessagesSent ∨ c = .totalResponsesForwarded ∨ c = .responsesDropped
  | _ => false

/-- Operations on pending requests and the socket, with their statistics. -/
def Op.isRelay (o : Op) : Bool := o.writesPending || o.isSend || o.recordsRelay

/-- What forwarding a request to decided targets does. -/
def Op.ofForward (data : List UInt8) (src : SocketAddr) (q : UInt32) (o : Op) : Prop :=
  (∃ b, o = .pendingInsert q src b false) ∨ (∃ a, o = .sendTo data a) ∨
    o = .fetchAdd .totalMessagesSent ∨ (∃ a, o = .countUpfMessage a) ∨ o = .pendingRemove q

/-- What the handler of a UPF request does. -/
def Op.ofUpfRequest (data : List UInt8) (src : SocketAddr) (seid : Option UInt64) (q : UInt32)
    (o : Op) : Prop :=
  (∃ s, seid = some s ∧ o = .sessionLookupFull s) ∨ o = .pendingInsert q src false true ∨
    (∃ a, o = .sendTo data a) ∨ o = .pendingRemove q

/-- What the handler of a response does. -/
def Op.ofResponse (data : List UInt8) (q : UInt32) (o : Op) : Prop :=
  o = .pendingLookupAndIncrement q ∨ (∃ a, o = .sendTo data a) ∨
    o = .fetchAdd .totalResponsesForwarded ∨ o = .fetchAdd .responsesDropped ∨
    o = .poolAllBackends ∨ o = .pendingRemove q

lemma broadcastLoop_ops (data : List UInt8) (bs : List SocketAddr) (n : ℕ) :
    Only (fun o => (∃ a, o = .sendTo data a) ∨ o = .fetchAdd .totalMessagesSent ∨
      ∃ a, o = .countUpfMessage a) (broadcastLoop data bs n) := by
  induction bs generalizing n with
  | nil => simp [broadcastLoop]
  | cons b bs ih =>
    simp only [broadcastLoop, recordMessageSent, Prog.call_bind, only_act]
    refine ⟨.inl ⟨b, rfl⟩, fun r => ?_⟩
    cases r with
    | true => exact ⟨.inr (.inl rfl), fun _ => ⟨.inr (.inr ⟨b, rfl⟩), fun _ => ih _⟩⟩
    | false => exact ih _

lemma forwardRequest_ops (data : List UInt8) (src : SocketAddr) (q : UInt32)
    (dec : RoutingDecision) : Only (Op.ofForward data src q) (forwardRequest data src q dec) := by
  cases dec with
  | single u =>
    simp only [forwardRequest, recordMessageSent, Prog.call_bind, only_act]
    refine ⟨by simp [Op.ofForward], fun _ => ⟨by simp [Op.ofForward], fun r => ?_⟩⟩
    cases r with
    | true =>
      exact ⟨by simp [Op.ofForward], fun _ => ⟨by simp [Op.ofForward], fun _ => trivial⟩⟩
    | false => exact ⟨by simp [Op.ofForward], fun _ => trivial⟩
  | broadcast bs =>
    have hloop : Only (Op.ofForward data src q) (broadcastLoop data bs 0) := by
      apply (broadcastLoop_ops data bs 0).mono
      rintro o (ho | rfl | ⟨a, rfl⟩)
      · exact .inr (.inl ho)
      · simp [Op.ofForward]
      · simp [Op.ofForward]
    simp only [forwardRequest, Prog.call_bind, only_act]
    refine ⟨by simp [Op.ofForward], fun _ => only_bind hloop fun n => ?_⟩
    by_cases hn : n = 0
    · simp only [hn, if_true]
      exact ⟨by simp [Op.ofForward], fun _ => trivial⟩
    · simp [hn]
  | _ => trivial

lemma handleUpfRequest_ops (data : List UInt8) (src : SocketAddr) (seid : Option UInt64)
    (q : UInt32) : Only (Op.ofUpfRequest data src seid q) (handleUpfRequest data src seid q) := by
  cases seid with
  | none => trivial
  | some s =>
    simp only [handleUpfRequest, Prog.call_bind, only_act]
    refine ⟨.inl ⟨s, rfl, rfl⟩, fun r => ?_⟩
    rcases r with _ | ⟨u, a⟩
    · trivial
    · by_cases hu : u = src
      · simp only [hu, if_true, Prog.pure_eq, only_act]
        refine ⟨.inr (.inl rfl), fun _ => ⟨.inr (.inr (.inl ⟨a, rfl⟩)), fun ok => ?_⟩⟩
        cases ok with
        | true => trivial
        | false => exact ⟨.inr (.inr (.inr rfl)), fun _ => trivial⟩
      · simp only [hu, if_false]
        trivial

lemma handleResponse_ops (data : List UInt8) (q : UInt32) :
    Only (Op.ofResponse data q) (handleResponse data q) := by
  simp only [handleResponse, recordResponseForwarded, recordResponseDropped, Prog.call_bind,
    Prog.pure_eq, Prog.done_bind, only_act]
  refine ⟨by simp [Op.ofResponse], fun r => ?_⟩
  rcases r with _ | ⟨o, b, n, f⟩
  · exact ⟨by simp [Op.ofResponse], fun _ => trivial⟩
  · refine ⟨by simp [Op.ofResponse], fun ok => ?_⟩
    cases ok with
    | false => trivial
    | true =>
      cases b with
      | false =>
        exact ⟨by simp [Op.ofResponse], fun _ => ⟨by simp [Op.ofResponse], fun _ => trivial⟩⟩
      | true =>
        simp only [if_true, only_act]
        refine ⟨by simp [Op.ofResponse], fun bs => ⟨by simp [Op.ofResponse], fun _ => ?_⟩⟩
        split
        · exact ⟨by simp [Op.ofResponse], fun _ => trivial⟩
        · trivial

lemma forwardRequest_only (data : List UInt8) (src : SocketAddr) (q : UInt32)
    (dec : RoutingDecision) :
    Only (fun o => o.isRelay = true) (forwardRequest data src q dec) := by
  apply (forwardRequest_ops data src q dec).mono
  rintro o (⟨b, rfl⟩ | ⟨a, rfl⟩ | rfl | ⟨a, rfl⟩ | rfl) <;> rfl

lemma handleUpfRequest_only (data : List UInt8) (src : SocketAddr) (seid : Option UInt64)
    (q : UInt32) :
    Only (fun o => o.isRelay = true ∨ ∃ s, o = .sessionLookupFull s)
      (handleUpfRequest data src seid q) := by
  apply (handleUpfRequest_ops data src seid q).mono
  rintro o (⟨s, -, rfl⟩ | rfl | ⟨a, rfl⟩ | rfl)
  · exact .inr ⟨s, rfl⟩
  all_goals exact .inl rfl

lemma handleResponse_only (data : List UInt8) (q : UInt32) :
    Only (fun o => o.isRelay = true) (handleResponse data q) := by
  apply (handleResponse_ops data q).mono
  rintro o (rfl | ⟨a, rfl⟩ | rfl | rfl | rfl | rfl) <;> rfl

/-! ### Routing -/

lemma routeMessage_of_broadcast {t : MsgType} (ht : isBroadcastRequest t = true)
    (seid : Option UInt64) (a : SocketAddr) : routeMessage t seid a = routeBroadcast := by
  cases t <;> first | rfl | simp [isBroadcastRequest] at ht

lemma routeMessage_of_default {t : MsgType} (ht : isDefaultRequest t = true)
    (seid : Option UInt64) (a : SocketAddr) : routeMessage t seid a = routeDefault seid a := by
  cases t <;> first | rfl | simp [isDefaultRequest] at ht

lemma acts_of_unparsed {d : Datagram} {l : Acts} {q : Handler Unit} (hd : d.header = none)
    (hp : Path (handleMessage d) l q) : l = [] := by
  simp only [handleMessage, hd, Prog.pure_eq] at hp
  exact (path_done_iff.mp hp).1

lemma handleMessage_smf {d : Datagram} {h : Header} (hd : d.header = some h)
    (ht : isSmfRequest h.msgType = true) :
    handleMessage d = recordMessageReceived h.msgType >>= fun _ =>
      routeMessage h.msgType h.seid d.src >>= forwardRequest d.data d.src h.sequence := by
  simp [handleMessage, hd, ht, isUpfRequest_of_smf ht, handleSmfRequest]

lemma handleMessage_response {d : Datagram} {h : Header} (hd : d.header = some h)
    (ht : isRequest h.msgType = false) :
    handleMessage d = recordMessageReceived h.msgType >>= fun _ =>
      handleResponse d.data h.sequence := by
  simp only [isRequest, Bool.or_eq_false_iff] at ht
  simp [handleMessage, hd, ht.1, ht.2]

lemma handleMessage_upf {d : Datagram} {h : Header} (hd : d.header = some h)
    (ht : isUpfRequest h.msgType = true) :
    handleMessage d = recordMessageReceived h.msgType >>= fun _ =>
      handleUpfRequest d.data d.src h.seid h.sequence := by
  simp [handleMessage, hd, ht]

/-- Broadcasts are decided for broadcast requests only, and single targets for others. -/
def DecisionFits (t : MsgType) : RoutingDecision → Prop
  | .single _ => isBroadcastRequest t = false
  | .broadcast _ => isBroadcastRequest t = true
  | _ => True

variable {d : Datagram} {h : Header}

lemma routeBroadcast_conduct (hd : d.header = some h) (ht : isBroadcastRequest h.msgType = true)
    {l : Acts} (hl : Idle l) :
    Guarded (Conduct d) (fun dec l' => Unsent l' ∧ DecisionFits h.msgType dec) routeBroadcast l := by
  simp only [routeBroadcast, recordRoutingDecision, if_true, Prog.call_bind, Prog.pure_eq,
    guarded_act, guarded_done]
  refine ⟨conduct_of_quiet hd _ rfl, fun _ => ⟨conduct_of_quiet hd _ rfl, fun bs => ⟨?_, ht⟩⟩⟩
  exact ((hl.snoc rfl _).snoc rfl _).unsent

lemma routeEstablishment_conduct (hd : d.header = some h)
    (ht : h.msgType = .sessionEstablishmentRequest) {l : Acts} (hl : Idle l) :
    Guarded (Conduct d) (fun dec l' => Unsent l' ∧ DecisionFits h.msgType dec)
      (routeEstablishment h.seid d.src) l := by
  unfold routeEstablishment
  rw [guarded_bind]
  apply guarded_selectUpf (fun l o ho => conduct_of_quiet hd l (Op.quiet_of_selection ho))
  intro r x hx
  have hlx := hl.append hx.idle
  cases r with
  | none => exact ⟨hlx.unsent, trivial⟩
  | some u =>
    have hfit : DecisionFits h.msgType (.single u) := by simp [DecisionFits, ht, isBroadcastRequest]
    simp only [recordRoutingDecision, recordSessionEstablished, Bool.false_eq_true, if_false,
      Prog.call_bind, Prog.pure_eq, guarded_act]
    refine ⟨conduct_of_quiet hd _ rfl, fun _ => ⟨conduct_of_quiet hd _ rfl, fun _ => ?_⟩⟩
    have hlb : Idle (l ++ x ++ [⟨.fetchAdd .routedByLoadBalance, ()⟩]) := hlx.snoc rfl _
    have hest : Idle (l ++ x ++ [⟨.fetchAdd .routedByLoadBalance, ()⟩] ++
        [⟨.fetchAdd .sessionsEstablished, ()⟩]) := hlb.snoc rfl _
    cases hs : h.seid with
    | none => exact ⟨hest.unsent, hfit⟩
    | some s =>
      simp only [guarded_act, guarded_done]
      exact ⟨⟨h, hd, hs, rfl, hest, .inl ht⟩, fun _ => ⟨hest.unsent.snoc rfl rfl _, hfit⟩⟩

lemma routeAffinity_conduct (hd : d.header = some h)
    (ht : h.msgType = .sessionModificationRequest ∨ h.msgType = .sessionDeletionRequest)
    {l : Acts} (hl : Idle l) :
    Guarded (Conduct d) (fun dec l' => Unsent l' ∧ DecisionFits h.msgType dec)
      (routeAffinity h.msgType h.seid) l := by
  have hfit (u : SocketAddr) : DecisionFits h.msgType (.single u) := by
    rcases ht with ht | ht <;> simp [DecisionFits, ht, isBroadcastRequest]
  unfold routeAffinity
  cases hs : h.seid with
  | none => exact ⟨hl.unsent, trivial⟩
  | some s =>
    simp only [Prog.call_bind, guarded_act]
    refine ⟨conduct_of_quiet hd _ rfl, fun r => ?_⟩
    have hl' : Idle (l ++ [⟨.sessionLookup s, r⟩]) := hl.snoc rfl r
    cases r with
    | none => exact ⟨hl'.unsent, trivial⟩
    | some u =>
      simp only [recordRoutingDecision, recordSessionDeleted, Bool.false_eq_true, if_false,
        if_true, Prog.call_bind, guarded_act]
      refine ⟨conduct_of_quiet hd _ rfl, fun _ => ?_⟩
      have hseid : Idle (l ++ [⟨.sessionLookup s, some u⟩] ++
          [⟨.fetchAdd .routedBySeid, ()⟩]) := hl'.snoc rfl _
      by_cases hdel : h.msgType = .sessionDeletionRequest
      · simp only [hdel, if_true, Prog.pure_eq, guarded_act, guarded_done]
        have hdeleted : Idle (l ++ [⟨.sessionLookup s, some u⟩] ++
            [⟨.fetchAdd .routedBySeid, ()⟩] ++ [⟨.fetchAdd .sessionsDeleted, ()⟩]) :=
          hseid.snoc rfl _
        refine ⟨conduct_of_quiet hd _ rfl, fun _ => ⟨⟨h, hd, hs, hdel, hdeleted, u, by simp⟩, ?_⟩⟩
        exact fun _ => ⟨hdeleted.unsent.snoc rfl rfl _, rfl⟩
      · simp only [hdel, if_false, Prog.pure_eq, guarded_done]
        exact ⟨hseid.unsent, hfit u⟩

lemma routeDefault_conduct (hd : d.header = some h) (ht : isDefaultRequest h.msgType = true)
    {l : Acts} (hl : Idle l) :
    Guarded (Conduct d) (fun dec l' => Unsent l' ∧ DecisionFits h.msgType dec)
      (routeDefault h.seid d.src) l := by
  have hfit (u : SocketAddr) : DecisionFits h.msgType (.single u) := by
    cases hm : h.msgType <;> simp_all [DecisionFits, isBroadcastRequest, isDefaultRequest]
  unfold routeDefault
  cases hs : h.seid with
  | none =>
    rw [guarded_bind]
    apply guarded_selectUpf (fun l o ho => conduct_of_quiet hd l (Op.quiet_of_selection ho))
    intro r x hx
    have hlx := hl.append hx.idle
    cases r with
    | none => exact ⟨hlx.unsent, trivial⟩
    | some u => exact ⟨conduct_of_quiet hd _ rfl, fun _ => ⟨(hlx.snoc rfl _).unsent, hfit u⟩⟩
  | some s =>
    simp only [Prog.call_bind, guarded_act]
    refine ⟨conduct_of_quiet hd _ rfl, fun r => ?_⟩
    have hl' : Idle (l ++ [⟨.sessionLookup s, r⟩]) := hl.snoc rfl r
    cases r with
    | some u => exact ⟨conduct_of_quiet hd _ rfl, fun _ => ⟨(hl'.snoc rfl _).unsent, hfit u⟩⟩
    | none =>
      rw [guarded_bind]
      apply guarded_selectUpf (fun l o ho => conduct_of_quiet hd l (Op.quiet_of_selection ho))
      intro r x hx
      have hlx := hl'.append hx.idle
      cases r with
      | none => exact ⟨hlx.unsent, trivial⟩
      | some u =>
        have hlb : Idle (l ++ [⟨.sessionLookup s, none⟩] ++ x ++
            [⟨.fetchAdd .routedByLoadBalance, ()⟩]) := hlx.snoc rfl _
        refine ⟨conduct_of_quiet hd _ rfl,
          fun _ => ⟨⟨h, hd, hs, rfl, hlb, .inr ⟨ht, by simp⟩⟩, fun _ => ?_⟩⟩
        exact ⟨hlb.unsent.snoc rfl rfl _, hfit u⟩

/-- Routing an SMF request sends nothing and decides in accordance with the message type. -/
theorem routeMessage_conduct (hd : d.header = some h) (ht : isSmfRequest h.msgType = true)
    {l : Acts} (hl : Idle l) :
    Guarded (Conduct d) (fun dec l' => Unsent l' ∧ DecisionFits h.msgType dec)
      (routeMessage h.msgType h.seid d.src) l := by
  rcases (isSmfRequest_iff _).mp ht with hb | he | hm | hdel | hdef
  · rw [routeMessage_of_broadcast hb]
    exact routeBroadcast_conduct hd hb hl
  · have hr : routeMessage h.msgType h.seid d.src = routeEstablishment h.seid d.src := by
      rw [he, routeMessage]
    rw [hr]
    exact routeEstablishment_conduct hd he hl
  · have hr : routeMessage h.msgType h.seid d.src = routeAffinity h.msgType h.seid := by
      rw [hm, routeMessage]
    rw [hr]
    exact routeAffinity_conduct hd (.inl hm) hl
  · have hr : routeMessage h.msgType h.seid d.src = routeAffinity h.msgType h.seid := by
      rw [hdel, routeMessage]
    rw [hr]
    exact routeAffinity_conduct hd (.inr hdel) hl
  · rw [routeMessage_of_default hdef]
    exact routeDefault_conduct hd hdef hl

/-! ### Forwarding -/

/-- The acts a request handler has behind it once its pending entry is recorded. -/
def Recorded (d : Datagram) (h : Header) (l : Acts) : Prop :=
  ⟨.pendingInsert h.sequence d.src (isBroadcastRequest h.msgType) (isUpfRequest h.msgType), ()⟩ ∈ l

lemma Recorded.append {l : Acts} (hl : Recorded d h l) (l' : Acts) : Recorded d h (l ++ l') :=
  List.mem_append_left _ hl

lemma Unsent.kept {l : Acts} (hl : Unsent l) (q : UInt32) : ⟨.pendingRemove q, ()⟩ ∉ l :=
  fun hm => absurd (hl _ hm).1 (by simp [Op.writesPending])

lemma Unsent.allSendsFailed {l : Acts} (hl : Unsent l) : AllSendsFailed l := by
  intro data dst hm
  exact absurd (hl _ hm).2 (by simp [Op.isSend])

lemma AllSendsFailed.snoc {l : Acts} (hl : AllSendsFailed l) {a : Act Op.Res}
    (ha : ∀ data dst, a ≠ ⟨.sendTo data dst, true⟩) : AllSendsFailed (l ++ [a]) := by
  intro data dst hm
  rw [List.mem_append, List.mem_singleton] at hm
  rcases hm with hm | hm
  · exact hl data dst hm
  · exact ha data dst hm.symm

/-- In a broadcast the sends come after the pending entry, and a count of zero means that
they all failed. -/
lemma broadcastLoop_conduct (hd : d.header = some h) (ht : isBroadcastRequest h.msgType = true)
    (bs : List SocketAddr) (n : ℕ) {l : Acts} (hr : Recorded d h l)
    (hk : ∀ q, ⟨.pendingRemove q, ()⟩ ∉ l) (hn : n = 0 → AllSendsFailed l) :
    Guarded (Conduct d) (fun m l' => Recorded d h l' ∧ (m = 0 → AllSendsFailed l'))
      (broadcastLoop d.data bs n) l := by
  have hreq : isRequest h.msgType = true := by
    simp [isRequest, (isSmfRequest_iff _).mpr (.inl ht)]
  have hupf : isUpfRequest h.msgType = false := isUpfRequest_of_broadcast ht
  induction bs generalizing n l with
  | nil => exact ⟨hr, hn⟩
  | cons b bs ih =>
    simp only [broadcastLoop, recordMessageSent, Prog.call_bind, guarded_act]
    refine ⟨⟨h, hd, rfl, hk, .inl ⟨hreq, hr, by simp [ht], by simp [hupf]⟩⟩, fun r => ?_⟩
    cases r with
    | true =>
      simp only [if_true, Prog.act_bind, Prog.call_bind, guarded_act]
      refine ⟨conduct_of_quiet hd _ rfl, fun _ => ⟨conduct_of_quiet hd _ rfl, fun _ => ?_⟩⟩
      exact ih _ (((hr.append _).append _).append _) (by simp [hk]) (by omega)
    | false =>
      simp only [Bool.false_eq_true, if_false]
      exact ih _ (hr.append _) (by simp [hk]) (fun h0 => (hn h0).snoc (by simp))

lemma forwardRequest_conduct (hd : d.header = some h) (ht : isSmfRequest h.msgType = true)
    {dec : RoutingDecision} (hdec : DecisionFits h.msgType dec) {l : Acts} (hl : Unsent l) :
    Guarded (Conduct d) (fun _ _ => True) (forwardRequest d.data d.src h.sequence dec) l := by
  have hreq : isRequest h.msgType = true := by simp [isRequest, ht]
  have hupf : isUpfRequest h.msgType = false := isUpfRequest_of_smf ht
  cases dec with
  | single u =>
    have hb : isBroadcastRequest h.msgType = false := hdec
    have hrec : Recorded d h (l ++ [⟨.pendingInsert h.sequence d.src false false, ()⟩]) := by
      simp [Recorded, hb, hupf]
    simp only [forwardRequest, recordMessageSent, Prog.call_bind, guarded_act]
    refine ⟨⟨h, hd, rfl, rfl, hreq, hb.symm, hupf.symm, hl⟩,
      fun _ => ⟨⟨h, hd, rfl, by simp [hl.kept], .inl ?_⟩, ?_⟩⟩
    · refine ⟨hreq, hrec, fun _ a ha => ?_, by simp [hupf]⟩
      rw [List.mem_append, List.mem_singleton] at ha
      rcases ha with ha | rfl
      · exact (hl a ha).2
      · rfl
    · intro r
      cases r with
      | true => exact ⟨conduct_of_quiet hd _ rfl, fun _ => ⟨conduct_of_quiet hd _ rfl, fun _ => trivial⟩⟩
      | false =>
        refine ⟨⟨h, hd, rfl, .inl ⟨hreq, ?_, hrec.append _⟩⟩, fun _ => trivial⟩
        exact (hl.allSendsFailed.snoc (by simp)).snoc (by simp)
  | broadcast bs =>
    have hb : isBroadcastRequest h.msgType = true := hdec
    have hrec : Recorded d h (l ++ [⟨.pendingInsert h.sequence d.src true false, ()⟩]) := by
      simp [Recorded, hb, hupf]
    simp only [forwardRequest, Prog.call_bind, guarded_act]
    refine ⟨⟨h, hd, rfl, rfl, hreq, hb.symm, hupf.symm, hl⟩, fun _ => ?_⟩
    rw [guarded_bind]
    apply (broadcastLoop_conduct hd hb bs 0 hrec (by simp [hl.kept])
      (fun _ => hl.allSendsFailed.snoc (by simp))).mono (fun _ _ hI => hI)
    rintro m l' ⟨hrec', hm⟩
    by_cases h0 : m = 0
    · simp only [h0, if_true]
      exact ⟨⟨h, hd, rfl, .inl ⟨hreq, hm h0, hrec'⟩⟩, fun _ => trivial⟩
    · simp only [h0, if_false]
      trivial
  | responseToClient => trivial
  | sessionNotFound => trivial
  | noSeid => trivial
  | noBackend => trivial

lemma handleUpfRequest_conduct (hd : d.header = some h) (ht : isUpfRequest h.msgType = true)
    {l : Acts} (hl : Unsent l) :
    Guarded (Conduct d) (fun _ _ => True)
      (handleUpfRequest d.data d.src h.seid h.sequence) l := by
  have hreq : isRequest h.msgType = true := by simp [isRequest, ht]
  have hb : isBroadcastRequest h.msgType = false :=
    Bool.eq_false_iff.mpr fun hb => by simp [isUpfRequest_of_broadcast hb] at ht
  unfold handleUpfRequest
  cases hs : h.seid with
  | none => trivial
  | some s =>
    simp only [Prog.call_bind, guarded_act]
    refine ⟨conduct_of_quiet hd _ rfl, fun r => ?_⟩
    have hl' : Unsent (l ++ [⟨.sessionLookupFull s, r⟩]) := hl.snoc rfl rfl r
    rcases r with _ | ⟨u, a⟩
    · trivial
    by_cases hu : u = d.src
    · subst hu
      have hrec : Recorded d h (l ++ [⟨.sessionLookupFull s, some (d.src, a)⟩] ++
          [⟨.pendingInsert h.sequence d.src false true, ()⟩]) := by
        simp [Recorded, hb, ht]
      simp only [if_true, Prog.pure_eq, guarded_act]
      refine ⟨⟨h, hd, rfl, rfl, hreq, hb.symm, ht.symm, hl'⟩,
        fun _ => ⟨⟨h, hd, rfl, by simp [hl.kept],
          .inl ⟨hreq, hrec, fun _ a ha => ?_, fun _ => ⟨s, hs, by simp⟩⟩⟩, ?_⟩⟩
      · rw [List.mem_append, List.mem_singleton] at ha
        rcases ha with ha | rfl
        · exact (hl' a ha).2
        · rfl
      · intro r
        cases r with
        | true => trivial
        | false =>
          refine ⟨⟨h, hd, rfl, .inl ⟨hreq, ?_, hrec.append _⟩⟩, fun _ => trivial⟩
          exact (hl'.allSendsFailed.snoc (by simp)).snoc (by simp)
    · simp only [hu, if_false]
      trivial

lemma handleResponse_conduct (hd : d.header = some h) (ht : isRequest h.msgType = false)
    {l : Acts} (hl : Unsent l) :
    Guarded (Conduct d) (fun _ _ => True) (handleResponse d.data h.sequence) l := by
  simp only [handleResponse, recordResponseForwarded, recordResponseDropped, Prog.call_bind,
    Prog.pure_eq, Prog.done_bind, guarded_act]
  refine ⟨⟨h, hd, rfl, ht, hl⟩, fun r => ?_⟩
  rcases r with _ | ⟨o, b, n, f⟩
  · exact ⟨⟨h, hd, ht, by simp⟩, fun _ => trivial⟩
  have hsend : ∀ a ∈ l ++ [⟨.pendingLookupAndIncrement h.sequence, some (o, b, n, f)⟩],
      a.op.isSend = false := by
    intro a ha
    rw [List.mem_append, List.mem_singleton] at ha
    rcases ha with ha | rfl
    · exact (hl a ha).2
    · rfl
  refine ⟨⟨h, hd, rfl, by simp [hl.kept], .inr ⟨ht, hsend, (o, b, n, f), by simp, rfl⟩⟩,
    fun r => ?_⟩
  cases r with
  | false => trivial
  | true =>
    have hrem (x : Acts) : Conduct d (l ++ [⟨.pendingLookupAndIncrement h.sequence, some (o, b, n, f)⟩]
        ++ [⟨.sendTo d.data o, true⟩] ++ x) (.pendingRemove h.sequence) :=
      ⟨h, hd, rfl, .inr ⟨ht, (o, b, n, f), by simp, by simp⟩⟩
    cases b with
    | true =>
      simp only [if_true, guarded_act]
      refine ⟨conduct_of_quiet hd _ rfl, fun bs => ⟨conduct_of_quiet hd _ rfl, fun _ => ?_⟩⟩
      split
      · refine ⟨?_, fun _ => trivial⟩
        rw [List.append_assoc]
        exact hrem _
      · trivial
    | false =>
      simp only [Bool.false_eq_true, if_false, if_true, true_or, guarded_act]
      refine ⟨conduct_of_quiet hd _ rfl, fun _ => ⟨?_, fun _ => trivial⟩⟩
      exact hrem _

/-- Every handler observes `Conduct`. -/
theorem handleMessage_conduct (d : Datagram) :
    Guarded (Conduct d) (fun _ _ => True) (handleMessage d) [] := by
  unfold handleMessage
  cases hd : d.header with
  | none => trivial
  | some h =>
    simp only [recordMessageReceived, Prog.call_bind, Prog.act_bind, guarded_act]
    refine ⟨conduct_of_quiet hd _ rfl, fun _ => ⟨conduct_of_quiet hd _ rfl, fun _ => ?_⟩⟩
    have hl : Idle ([] ++ [⟨.fetchAdd .totalMessagesReceived, ()⟩] ++
        [⟨.countMsgType h.msgType, ()⟩]) := by
      intro a ha
      simp only [List.nil_append, List.cons_append, List.mem_cons, List.not_mem_nil,
        or_false] at ha
      rcases ha with rfl | rfl <;> rfl
    cases hu : isUpfRequest h.msgType with
    | true =>
      simp only [if_true]
      exact handleUpfRequest_conduct hd hu hl.unsent
    | false =>
      cases hsmf : isSmfRequest h.msgType with
      | false =>
        simp only [Bool.false_eq_true, if_false, if_true]
        exact handleResponse_conduct hd (by simp [isRequest, hu, hsmf]) hl.unsent
      | true =>
        simp only [Bool.false_eq_true, Bool.true_eq_false, if_false, handleSmfRequest]
        rw [guarded_bind]
        apply (routeMessage_conduct hd hsmf hl).mono (fun _ _ hI => hI)
        rintro dec l' ⟨hl', hdec⟩
        exact forwardRequest_conduct hd hsmf hdec hl'

end PfcpProxy
