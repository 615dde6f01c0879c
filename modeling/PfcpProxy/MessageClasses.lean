import PfcpProxy.Accounting
import PfcpProxy.Affinity
import PfcpProxy.Pending
import PfcpProxy.PoolInvariant

/-!
# Classes of messages

Every handler counts its message in one class: a routing decision, a response forwarded or
dropped. What is counted nowhere are reports of UPFs, refused requests and responses whose
forward failed.
-/

namespace PfcpProxy

open AtomicTasks

/-! ### Routing decisions -/

/-- The counters of routing, and of the sessions it establishes and deletes. -/
def Op.decision : Op → Option Counter
  | .fetchAdd .routedBySeid => some .routedBySeid
  | .fetchAdd .routedByLoadBalance => some .routedByLoadBalance
  | .fetchAdd .broadcasts => some .broadcasts
  | .fetchAdd .sessionsEstablished => some .sessionsEstablished
  | .fetchAdd .sessionsDeleted => some .sessionsDeleted
  | _ => none

/-- The routing counters a handler has bumped, in order. -/
def decisions (l : Acts) : List Counter := l.filterMap (fun a => a.op.decision)

@[simp] lemma decisions_nil : decisions [] = [] := rfl

@[simp] lemma decisions_append (l l' : Acts) : decisions (l ++ l') = decisions l ++ decisions l' :=
  List.filterMap_append

@[simp] lemma decisions_cons (a : Act Op.Res) (l : Acts) :
    decisions (a :: l) = a.op.decision.toList ++ decisions l := by
  cases hc : a.op.decision <;> simp [decisions, hc]

lemma decisions_of_not {l : Acts} (hl : ∀ a ∈ l, a.op.decision = none) : decisions l = [] :=
  List.filterMap_eq_nil_iff.mpr hl

lemma Selecting.decisions {l : Acts} (hl : Selecting l) : decisions l = [] := by
  apply decisions_of_not
  intro a ha
  have hsel := hl a ha
  cases hop : a.op <;> first | rfl | simp [hop, Op.isSelection] at hsel

lemma Op.decision_of_relay {o : Op} (ho : o.isRelay = true) : o.decision = none := by
  cases o with
  | fetchAdd c => cases c <;> first | rfl | cases ho
  | _ => rfl

/-- The refusals of `handle_smf_request`. -/
def RoutingDecision.isRefusal : RoutingDecision → Bool
  | .noBackend | .sessionNotFound | .noSeid => true
  | _ => false

/-- What a handler may have on record while it routes, and when it has routed. -/
def Decided (L : List Counter) : Prop :=
  L ∈ [[], [.broadcasts], [.routedByLoadBalance], [.routedByLoadBalance, .sessionsEstablished],
    [.routedBySeid], [.routedBySeid, .sessionsDeleted]]

instance (L : List Counter) : Decidable (Decided L) := by
  unfold Decided
  infer_instance

/-- The record is in order throughout, and it is empty at the end where routing refuses. -/
def Records (p : Handler RoutingDecision) (l : Acts) : Prop :=
  Guarded (fun l' _ => Decided (decisions l'))
    (fun dec l' => Decided (decisions l') ∧ (dec.isRefusal = true ↔ decisions l' = [])) p l

variable {d : Datagram} {h : Header} {l : Acts}

lemma guarded_selectUpf_records {f : Option SocketAddr → Handler RoutingDecision}
    (hl : Decided (decisions l))
    (hf : ∀ r l', decisions l' = decisions l → Records (f r) l') :
    Records (selectUpf >>= f) l := by
  unfold Records
  rw [guarded_bind]
  apply guarded_of_only selectUpf_only (fun l' => decisions l' = decisions l) rfl
  · intro l' o hl' ho
    refine ⟨by rwa [hl'], fun r => ?_⟩
    have hsel : decisions [⟨o, r⟩] = [] := Selecting.decisions (by simpa [Selecting] using ho)
    rw [decisions_append, hl', hsel, List.append_nil]
  · exact hf

lemma routeEstablishment_records (seid : Option UInt64) (a : SocketAddr)
    (hl : decisions l = []) : Records (routeEstablishment seid a) l := by
  unfold routeEstablishment
  refine guarded_selectUpf_records (by simp [hl, Decided]) fun r l' hl' => ?_
  rw [hl] at hl'
  cases r with
  | none => simp [Records, hl', Decided, RoutingDecision.isRefusal]
  | some u =>
    cases seid <;>
      simp [Records, recordRoutingDecision, recordSessionEstablished, hl', Op.decision, Decided,
        RoutingDecision.isRefusal]

lemma routeAffinity_records (t : MsgType) (seid : Option UInt64) (hl : decisions l = []) :
    Records (routeAffinity t seid) l := by
  cases seid with
  | none => simp [Records, routeAffinity, hl, Decided, RoutingDecision.isRefusal]
  | some s =>
    simp only [Records, routeAffinity, Prog.call_bind, guarded_act]
    refine ⟨by simp [hl, Decided], fun r => ?_⟩
    cases r with
    | none => simp [hl, Op.decision, Decided, RoutingDecision.isRefusal]
    | some u =>
      by_cases hdel : t = .sessionDeletionRequest
      · simp [recordRoutingDecision, recordSessionDeleted, hdel, hl, Op.decision, Decided,
          RoutingDecision.isRefusal]
      · simp [recordRoutingDecision, hdel, hl, Op.decision, Decided, RoutingDecision.isRefusal]

lemma routeDefault_records (seid : Option UInt64) (a : SocketAddr) (hl : decisions l = []) :
    Records (routeDefault seid a) l := by
  cases seid with
  | none =>
    refine guarded_selectUpf_records (by simp [hl, Decided]) fun r l' hl' => ?_
    rw [hl] at hl'
    cases r <;>
      simp [Records, recordRoutingDecision, hl', Op.decision, Decided, RoutingDecision.isRefusal]
  | some s =>
    simp only [Records, routeDefault, Prog.call_bind, guarded_act]
    refine ⟨by simp [hl, Decided], fun r => ?_⟩
    cases r with
    | some u =>
      simp [recordRoutingDecision, hl, Op.decision, Decided, RoutingDecision.isRefusal]
    | none =>
      refine guarded_selectUpf_records (by simp [hl, Op.decision, Decided]) fun r l' hl' => ?_
      simp only [decisions_append, hl, decisions_cons, Op.decision, Option.toList_none,
        decisions_nil, List.append_nil] at hl'
      cases r <;>
        simp [Records, recordRoutingDecision, hl', Op.decision, Decided, RoutingDecision.isRefusal]

/-- Routing an SMF request keeps its record in order. -/
lemma routeMessage_records {t : MsgType} (ht : isSmfRequest t = true) (seid : Option UInt64)
    (a : SocketAddr) (hl : decisions l = []) : Records (routeMessage t seid a) l := by
  rcases (isSmfRequest_iff t).mp ht with hb | rfl | rfl | rfl | hdef
  · rw [routeMessage_of_broadcast hb]
    simp [Records, routeBroadcast, recordRoutingDecision, hl, Op.decision, Decided,
      RoutingDecision.isRefusal]
  · exact routeEstablishment_records seid a hl
  · exact routeAffinity_records _ seid hl
  · exact routeAffinity_records _ seid hl
  · rw [routeMessage_of_default hdef]
    exact routeDefault_records seid a hl

lemma guarded_unrecorded {p : Handler Unit} (hp : Only (fun o => o.decision = none) p)
    (hl : Decided (decisions l)) :
    Guarded (fun l' _ => Decided (decisions l')) (fun _ l' => Decided (decisions l')) p l :=
  guarded_of_only hp (fun l' => Decided (decisions l')) hl
    (fun l' o hl' ho => ⟨hl', fun r => by simpa [ho] using hl'⟩) (fun _ _ hl' => hl')

lemma forwardRequest_unrecorded (data : List UInt8) (src : SocketAddr) (q : UInt32)
    (dec : RoutingDecision) : Only (fun o => o.decision = none) (forwardRequest data src q dec) :=
  (forwardRequest_only data src q dec).mono fun _ => Op.decision_of_relay

lemma handleUpfRequest_unrecorded (data : List UInt8) (src : SocketAddr) (seid : Option UInt64)
    (q : UInt32) : Only (fun o => o.decision = none) (handleUpfRequest data src seid q) := by
  apply (handleUpfRequest_only data src seid q).mono
  rintro o (ho | ⟨s, rfl⟩)
  · exact Op.decision_of_relay ho
  · rfl

lemma handleResponse_unrecorded (data : List UInt8) (q : UInt32) :
    Only (fun o => o.decision = none) (handleResponse data q) :=
  (handleResponse_only data q).mono fun _ => Op.decision_of_relay

/-- Every handler keeps its record in order. -/
theorem handleMessage_decided (d : Datagram) :
    Guarded (fun l _ => Decided (decisions l)) (fun _ l => Decided (decisions l))
      (handleMessage d) [] := by
  unfold handleMessage
  cases hd : d.header with
  | none => simp [Decided]
  | some h =>
    simp only [recordMessageReceived, Prog.call_bind, Prog.act_bind, guarded_act]
    refine ⟨by decide, fun _ => ⟨by simp [Op.decision, Decided], fun _ => ?_⟩⟩
    have hl : decisions ([] ++ [⟨.fetchAdd .totalMessagesReceived, ()⟩] ++
        [⟨.countMsgType h.msgType, ()⟩]) = [] := rfl
    have hdec := hl ▸ (show Decided [] by decide)
    cases hu : isUpfRequest h.msgType with
    | true =>
      simp only [if_true]
      exact guarded_unrecorded (handleUpfRequest_unrecorded _ _ _ _) hdec
    | false =>
      cases hsmf : isSmfRequest h.msgType with
      | false =>
        simp only [Bool.false_eq_true, if_false, if_true]
        exact guarded_unrecorded (handleResponse_unrecorded _ _) hdec
      | true =>
        simp only [Bool.false_eq_true, Bool.true_eq_false, if_false, handleSmfRequest]
        rw [guarded_bind]
        apply (routeMessage_records hsmf h.seid d.src hl).mono (fun _ _ hI => hI)
        rintro dec l' ⟨hl', _⟩
        exact guarded_unrecorded (forwardRequest_unrecorded _ _ _ _) hl'

/-! ### Classes of messages -/

/-- The request was refused. -/
def Refused (d : Datagram) (l : Acts) : Prop :=
  ∃ h dec, d.header = some h ∧ isSmfRequest h.msgType = true ∧ Routed d l dec ∧
    dec.isRefusal = true

/-- The message is a request of a UPF. -/
def UpfInitiated (d : Datagram) : Prop := ∃ h, d.header = some h ∧ isUpfRequest h.msgType = true

/-- The response found its request and could not be forwarded. -/
def ForwardFailed (d : Datagram) (l : Acts) : Prop :=
  ∃ q r, d.Answers q ∧ ⟨.pendingLookupAndIncrement q, some r⟩ ∈ l ∧ ⟨.sendTo d.data r.1, false⟩ ∈ l

/-- The counters of responses. -/
def Op.settles : Op → Bool
  | .fetchAdd c => c = .totalResponsesForwarded ∨ c = .responsesDropped
  | _ => false

/-- What routing reads, and the entries and counters it writes. -/
def Op.isRouting : Op → Bool
  | .fetchAdd c => (Op.fetchAdd c).decision.isSome
  | .sessionInsert _ _ _ | .sessionLookup _ | .sessionRemove _ | .poolAllBackends => true
  | o => o.isSelection

lemma Op.isRouting_of_selection {o : Op} (ho : o.isSelection = true) : o.isRouting = true := by
  cases o <;> first | rfl | cases ho

lemma Op.not_settles_of_routing {o : Op} (ho : o.isRouting = true) : o.settles = false := by
  cases o with
  | fetchAdd c => cases c <;> first | rfl | cases ho
  | _ => rfl

lemma routeMessage_only {t : MsgType} (ht : isSmfRequest t = true) (seid : Option UInt64)
    (a : SocketAddr) : Only (fun o => o.isRouting = true) (routeMessage t seid a) := by
  have hsel : Only (fun o => o.isRouting = true) selectUpf :=
    selectUpf_only.mono fun _ => Op.isRouting_of_selection
  rcases (isSmfRequest_iff t).mp ht with hb | rfl | rfl | rfl | hdef
  · rw [routeMessage_of_broadcast hb]
    exact ⟨rfl, fun _ => ⟨rfl, fun _ => trivial⟩⟩
  · refine only_bind hsel fun r => ?_
    rcases r with _ | u
    · trivial
    · cases seid with
      | none => exact ⟨rfl, fun _ => ⟨rfl, fun _ => trivial⟩⟩
      | some s => exact ⟨rfl, fun _ => ⟨rfl, fun _ => ⟨rfl, fun _ => trivial⟩⟩⟩
  · rcases seid with _ | s
    · trivial
    · refine ⟨rfl, fun r => ?_⟩
      cases r with
      | none => trivial
      | some u => exact ⟨rfl, fun _ => trivial⟩
  · rcases seid with _ | s
    · trivial
    · refine ⟨rfl, fun r => ?_⟩
      cases r with
      | none => trivial
      | some u => exact ⟨rfl, fun _ => ⟨rfl, fun _ => ⟨rfl, fun _ => trivial⟩⟩⟩
  · rw [routeMessage_of_default hdef]
    cases seid with
    | none =>
      refine only_bind hsel fun r => ?_
      cases r with
      | none => trivial
      | some u => exact ⟨rfl, fun _ => trivial⟩
    | some s =>
      simp only [routeDefault, Prog.call_bind, only_act]
      refine ⟨rfl, fun r => ?_⟩
      cases r with
      | some u => exact ⟨rfl, fun _ => trivial⟩
      | none =>
        refine only_bind hsel fun r => ?_
        cases r with
        | none => trivial
        | some u => exact ⟨rfl, fun _ => ⟨rfl, fun _ => trivial⟩⟩

lemma forwardRequest_unsettled (data : List UInt8) (src : SocketAddr) (q : UInt32)
    (dec : RoutingDecision) : Only (fun o => o.settles = false) (forwardRequest data src q dec) := by
  apply (forwardRequest_ops data src q dec).mono
  rintro o (⟨b, rfl⟩ | ⟨a, rfl⟩ | rfl | ⟨a, rfl⟩ | rfl) <;> rfl

/-- What the handler of a report does. -/
def Op.isReport : Op → Bool
  | .sessionLookupFull _ => true
  | o => o.writesPending || o.isSend

/-- What the handler of a response does. -/
def Op.isReply (o : Op) : Bool := o.writesPending || o.isSend || o.settles || o = .poolAllBackends

lemma handleUpfRequest_report (data : List UInt8) (src : SocketAddr) (seid : Option UInt64)
    (q : UInt32) : Only (fun o => o.isReport = true) (handleUpfRequest data src seid q) := by
  apply (handleUpfRequest_ops data src seid q).mono
  rintro o (⟨s, -, rfl⟩ | rfl | ⟨a, rfl⟩ | rfl) <;> rfl

lemma handleResponse_reply (data : List UInt8) (q : UInt32) :
    Only (fun o => o.isReply = true) (handleResponse data q) := by
  apply (handleResponse_ops data q).mono
  rintro o (rfl | ⟨a, rfl⟩ | rfl | rfl | rfl | rfl) <;> rfl

lemma Op.not_settles_of_report {o : Op} (ho : o.isReport = true) : o.settles = false := by
  cases o <;> first | rfl | cases ho

lemma request_unsettled (hd : d.header = some h) (ht : isRequest h.msgType = true) :
    Only (fun o => o.settles = false) (handleMessage d) := by
  unfold handleMessage
  simp only [hd, recordMessageReceived, Prog.call_bind, Prog.act_bind]
  refine ⟨rfl, fun _ => ⟨rfl, fun _ => ?_⟩⟩
  cases hu : isUpfRequest h.msgType with
  | true =>
    simp only [if_true]
    exact (handleUpfRequest_report _ _ _ _).mono fun _ => Op.not_settles_of_report
  | false =>
    have hsmf : isSmfRequest h.msgType = true := by simpa [isRequest, hu] using ht
    simp only [hsmf, Bool.false_eq_true, Bool.true_eq_false, if_false, handleSmfRequest]
    have hroute := (routeMessage_only hsmf h.seid d.src).mono fun _ => Op.not_settles_of_routing
    exact only_bind hroute fun dec => forwardRequest_unsettled d.data d.src h.sequence dec

lemma exists_routed (hd : d.header = some h) (ht : isSmfRequest h.msgType = true)
    (hp : Path (handleMessage d) l (.done ())) : ∃ dec, Routed d l dec := by
  rw [handleMessage_smf hd ht] at hp
  obtain ⟨_, l₁, l', rfl, hp₁, hp⟩ := path_bind_done hp
  obtain ⟨dec, l₂, l₃, rfl, hp₂, _⟩ := path_bind_done hp
  exact ⟨dec, h, l₁, l₂, l₃, hd, (List.append_assoc _ _ _).symm, hp₁, hp₂⟩

/-- A refused request has nothing on record, and only a refused one. -/
lemma Routed.refusal_iff {dec : RoutingDecision} (hr : Routed d l dec) (hd : d.header = some h)
    (ht : isSmfRequest h.msgType = true) (hp : Path (handleMessage d) l (.done ())) :
    dec.isRefusal = true ↔ decisions l = [] := by
  obtain ⟨h', l₁, l₂, l₃, hd', rfl, hp₁, hp₂⟩ := hr
  obtain rfl : h = h' := by simpa [hd] using hd'
  rw [handleMessage_smf hd ht, List.append_assoc] at hp
  have hp₃ := hp₂.bind_rest (hp₁.bind_rest hp)
  have h₁ : decisions l₁ = [] :=
    decisions_of_not (hp₁.only (P := fun o => o.decision = none) ⟨rfl, fun _ => ⟨rfl, fun _ => trivial⟩⟩)
  have h₃ : decisions l₃ = [] := decisions_of_not (hp₃.only (forwardRequest_unrecorded _ _ _ _))
  have h₂ := ((routeMessage_records ht h.seid d.src decisions_nil).path hp₂).2
  simpa [h₁, h₃] using h₂

lemma refused_iff (hd : d.header = some h) (ht : isSmfRequest h.msgType = true)
    (hp : Path (handleMessage d) l (.done ())) : Refused d l ↔ decisions l = [] := by
  constructor
  · rintro ⟨h', dec, _, _, hr, hdec⟩
    exact (hr.refusal_iff hd ht hp).mp hdec
  · intro hnil
    obtain ⟨dec, hr⟩ := exists_routed hd ht hp
    exact ⟨h, dec, hd, ht, hr, (hr.refusal_iff hd ht hp).mpr hnil⟩

/-- The number of operations among the acts that satisfy `P`. -/
abbrev countOps (P : Op → Bool) (l : Acts) : ℕ := l.countP (fun a => P a.op)

lemma countOps_cons_of_not {P : Op → Bool} {a : Act Op.Res} (ha : P a.op = false) :
    countOps P (a :: l) = countOps P l := by
  simp [countOps, ha]

lemma countOps_append (P : Op → Bool) (l l' : Acts) :
    countOps P (l ++ l') = countOps P l + countOps P l' := List.countP_append

lemma not_forwardFailed (hall : ∀ data dst, ⟨.sendTo data dst, false⟩ ∉ l) :
    ¬ForwardFailed d l := by
  rintro ⟨q, r, _, _, hfail⟩
  exact hall _ _ hfail

/-- How the response ended: forwarded, dropped, or found its request and could not be
forwarded. -/
def Settled (d : Datagram) (l : Acts) : Prop :=
  decisions l = [] ∧
    (countOps (Op.bumps .totalResponsesForwarded) l = 1 ∧
        countOps (Op.bumps .responsesDropped) l = 0 ∧ ¬ForwardFailed d l ∨
      countOps (Op.bumps .totalResponsesForwarded) l = 0 ∧
        countOps (Op.bumps .responsesDropped) l = 1 ∧ ¬ForwardFailed d l ∨
      countOps (Op.bumps .totalResponsesForwarded) l = 0 ∧
        countOps (Op.bumps .responsesDropped) l = 0 ∧ ForwardFailed d l)

/-- Every response ends in one way. -/
lemma response_settled (hd : d.header = some h) (ht : isRequest h.msgType = false) :
    Guarded (fun _ _ => True) (fun _ l => Settled d l) (handleMessage d) [] := by
  have hans : d.Answers h.sequence := ⟨h, hd, rfl, ht⟩
  rw [handleMessage_response hd ht]
  simp only [recordMessageReceived, handleResponse, recordResponseForwarded,
    recordResponseDropped, Prog.call_bind, Prog.act_bind, Prog.pure_eq, Prog.done_bind,
    guarded_act, true_and]
  intro _ _ r
  rcases r with _ | ⟨o, b, n, f⟩
  · refine ⟨trivial, fun _ => ⟨by simp [Op.decision], .inr (.inl ⟨by simp [Op.bumps], by simp [Op.bumps], ?_⟩)⟩⟩
    exact not_forwardFailed (by simp)
  · simp only [guarded_act, true_and]
    intro ok
    cases ok with
    | false =>
      refine ⟨by simp [Op.decision], .inr (.inr ⟨by simp [Op.bumps], by simp [Op.bumps], ?_⟩)⟩
      exact ⟨h.sequence, (o, b, n, f), hans, by simp, by simp⟩
    | true =>
      cases b with
      | false =>
        simp only [Bool.false_eq_true, true_or, if_false, if_true, guarded_act, true_and]
        refine fun _ => ⟨trivial, fun _ => ⟨by simp [Op.decision],
          .inl ⟨by simp [Op.bumps], by simp [Op.bumps], ?_⟩⟩⟩
        exact not_forwardFailed (by simp)
      | true =>
        simp only [if_true, guarded_act, true_and]
        intro bs _
        split
        · refine ⟨trivial, fun _ => ⟨by simp [Op.decision],
            .inl ⟨by simp [Op.bumps], by simp [Op.bumps], ?_⟩⟩⟩
          exact not_forwardFailed (by simp)
        · refine ⟨by simp [Op.decision], .inl ⟨by simp [Op.bumps], by simp [Op.bumps], ?_⟩⟩
          exact not_forwardFailed (by simp)

/-- Each class of a message that was handled, as the counters and the acts have it. -/
noncomputable def classes (d : Datagram) (l : Acts) : ℕ :=
  open Classical in
  countOps (Op.bumps .routedBySeid) l + countOps (Op.bumps .routedByLoadBalance) l +
    countOps (Op.bumps .broadcasts) l + countOps (Op.bumps .totalResponsesForwarded) l +
    countOps (Op.bumps .responsesDropped) l + (if UpfInitiated d then 1 else 0) +
    (if Refused d l then 1 else 0) + (if ForwardFailed d l then 1 else 0)

lemma countOps_decision {k : Counter} (hk : (Op.fetchAdd k).decision = some k) (l : Acts) :
    countOps (Op.bumps k) l = (decisions l).count k := by
  induction l with
  | nil => rfl
  | cons a l ih =>
    obtain ⟨o, r⟩ := a
    rw [countOps, List.countP_cons, ← countOps, ih, decisions_cons, List.count_append]
    by_cases ho : o = .fetchAdd k
    · subst ho
      simp [Op.bumps, hk, Nat.add_comm]
    · have hcount : o.decision.toList.count k = 0 := by
        rw [List.count_eq_zero]
        intro hm
        have hdec : o.decision = some k := by simpa using hm
        cases o with
        | fetchAdd c =>
          cases c <;> first | exact ho (by cases hdec; rfl) | cases hdec
        | _ => cases hdec
      simp [Op.bumps, ho, hcount]

lemma countOps_eq_zero {P : Op → Bool} (hl : ∀ a ∈ l, P a.op = false) : countOps P l = 0 := by
  simpa [countOps, List.countP_eq_zero] using hl

/-- Each handled message is in exactly one class. -/
theorem classes_eq_one (hd : d.header = some h) (hp : Path (handleMessage d) l (.done ())) :
    classes d l = 1 := by
  have hbooks {k : Counter} (hk : (Op.fetchAdd k).decision = some k) := countOps_decision hk l
  unfold classes
  rw [hbooks (k := .routedBySeid) rfl, hbooks (k := .routedByLoadBalance) rfl,
    hbooks (k := .broadcasts) rfl]
  cases hreq : isRequest h.msgType with
  | false =>
    have hupf : ¬UpfInitiated d := by
      rintro ⟨h', hd', hu⟩
      obtain rfl : h = h' := by simpa [hd] using hd'
      simp [isRequest, hu] at hreq
    have href : ¬Refused d l := by
      rintro ⟨h', _, hd', hs, _⟩
      obtain rfl : h = h' := by simpa [hd] using hd'
      simp [isRequest, hs] at hreq
    obtain ⟨hdec, hset⟩ := (response_settled hd hreq).path hp
    rw [List.nil_append] at hdec hset
    rcases hset with ⟨h₁, h₂, h₃⟩ | ⟨h₁, h₂, h₃⟩ | ⟨h₁, h₂, h₃⟩ <;>
      simp [hdec, hupf, href, h₁, h₂, h₃]
  | true =>
    have hsettle (k : Counter) (hk : (Op.fetchAdd k).settles = true) : countOps (Op.bumps k) l = 0 := by
      apply countOps_eq_zero
      intro a ha
      have hoff := hp.only (request_unsettled hd hreq) a ha
      simp only [Op.bumps, decide_eq_false_iff_not]
      intro hop
      rw [hop, hk] at hoff
      cases hoff
    have hfail : ¬ForwardFailed d l := by
      rintro ⟨q, r, hans, _⟩
      exact (show d.Asks h.sequence from ⟨h, hd, rfl, hreq⟩).not_answers hans
    rw [hsettle .totalResponsesForwarded rfl, hsettle .responsesDropped rfl]
    cases hu : isUpfRequest h.msgType with
    | true =>
      have hupf : UpfInitiated d := ⟨h, hd, hu⟩
      have href : ¬Refused d l := by
        rintro ⟨h', _, hd', hs, _⟩
        obtain rfl : h = h' := by simpa [hd] using hd'
        simp [isUpfRequest_of_smf hs] at hu
      have hdec : decisions l = [] := by
        refine decisions_of_not (hp.only (P := fun o => o.decision = none) ?_)
        rw [handleMessage_upf hd hu]
        exact ⟨rfl, fun _ => ⟨rfl, fun _ => handleUpfRequest_unrecorded _ _ _ _⟩⟩
      simp [hdec, hupf, href, hfail]
    | false =>
      have hsmf : isSmfRequest h.msgType = true := by simpa [isRequest, hu] using hreq
      have hupf : ¬UpfInitiated d := by
        rintro ⟨h', hd', hu'⟩
        obtain rfl : h = h' := by simpa [hd] using hd'
        simp [hu] at hu'
      have href := refused_iff hd hsmf hp
      have hdecided : Decided (decisions l) := by simpa using (handleMessage_decided d).path hp
      simp only [Decided, List.mem_cons, List.not_mem_nil, or_false] at hdecided
      rcases hdecided with hL | hL | hL | hL | hL | hL <;> simp [hL, href, hupf, hfail]

/-! ### Receiving and sending -/

/-- The message type an operation counts. -/
def Op.typeKey : Op → Option MsgType
  | .countMsgType t => some t
  | _ => none

/-- The UPF an operation counts a message for. -/
def Op.upfKey : Op → Option SocketAddr
  | .countUpfMessage u => some u
  | _ => none

/-- Operations that come after `recordMessageReceived`. -/
def Op.isHandling (o : Op) : Bool := o.isRouting || o.isDispatch || o.isReport || o.isReply

lemma Op.not_received_of_handling {o : Op} (ho : o.isHandling = true) :
    Op.bumps .totalMessagesReceived o = false ∧ o.typeKey = none := by
  cases o with
  | fetchAdd c => cases c <;> first | exact ⟨rfl, rfl⟩ | cases ho
  | countMsgType t => cases ho
  | _ => exact ⟨rfl, rfl⟩

lemma forwardRequest_handling (data : List UInt8) (src : SocketAddr) (q : UInt32)
    (dec : RoutingDecision) :
    Only (fun o => o.isDispatch = true ∨ o.writesPending = true) (forwardRequest data src q dec) := by
  apply (forwardRequest_ops data src q dec).mono
  rintro o (⟨b, rfl⟩ | ⟨a, rfl⟩ | rfl | ⟨a, rfl⟩ | rfl)
  · exact .inr rfl
  · exact .inl rfl
  · exact .inl rfl
  · exact .inl rfl
  · exact .inr rfl

lemma handleMessage_received (hd : d.header = some h) :
    ∃ rest : Handler Unit, handleMessage d = (recordMessageReceived h.msgType >>= fun _ => rest) ∧
      Only (fun o => o.isHandling = true) rest := by
  refine ⟨if isUpfRequest h.msgType then handleUpfRequest d.data d.src h.seid h.sequence
    else if isSmfRequest h.msgType = false then handleResponse d.data h.sequence
    else handleSmfRequest d.data d.src h.msgType h.seid h.sequence,
    by simp only [handleMessage, hd], ?_⟩
  cases hu : isUpfRequest h.msgType with
  | true =>
    simp only [if_true]
    exact (handleUpfRequest_report _ _ _ _).mono fun o ho => by simp [Op.isHandling, ho]
  | false =>
    cases hsmf : isSmfRequest h.msgType with
    | false =>
      simp only [Bool.false_eq_true, if_false, if_true]
      exact (handleResponse_reply _ _).mono fun o ho => by simp [Op.isHandling, ho]
    | true =>
      simp only [Bool.false_eq_true, Bool.true_eq_false, if_false, handleSmfRequest]
      apply only_bind
      · exact (routeMessage_only hsmf h.seid d.src).mono fun o ho => by simp [Op.isHandling, ho]
      · intro dec
        apply (forwardRequest_handling _ _ _ _).mono
        rintro o (ho | ho)
        · simp [Op.isHandling, ho]
        · simp [Op.isHandling, Op.isReply, ho]

/-- A handler that has returned has counted its message once, in total and by type. -/
lemma received_once (hd : d.header = some h) (hp : Path (handleMessage d) l (.done ())) :
    countOps (Op.bumps .totalMessagesReceived) l = 1 ∧
      countOps (fun o => o.typeKey.isSome) l = 1 := by
  obtain ⟨rest, hrest, honly⟩ := handleMessage_received hd
  rw [hrest] at hp
  obtain ⟨_, l₁, l₂, rfl, hp₁, hp₂⟩ := path_bind_done hp
  rcases hp₁ with _ | ⟨_, _ | ⟨_, hp₁⟩⟩
  obtain ⟨rfl, _⟩ := path_done_iff.mp hp₁
  have hoff := fun a ha => Op.not_received_of_handling (hp₂.only honly a ha)
  have h₁ := countOps_eq_zero fun a ha => (hoff a ha).1
  have h₂ := countOps_eq_zero (P := fun o => o.typeKey.isSome) fun a ha => by rw [(hoff a ha).2]; rfl
  constructor
  · rw [countOps_append, h₁]
    rfl
  · rw [countOps_append, h₂]
    rfl

/-- Each message sent to a UPF is counted once, in total and for the UPF. -/
lemma broadcastLoop_sent {data : List UInt8} {bs : List SocketAddr} {n m : ℕ}
    (hp : Path (broadcastLoop data bs n) l (.done m)) :
    countOps (Op.bumps .totalMessagesSent) l = countOps (fun o => o.upfKey.isSome) l := by
  induction bs generalizing n l with
  | nil =>
    obtain ⟨rfl, _⟩ := path_done_iff.mp hp
    rfl
  | cons b bs ih =>
    simp only [broadcastLoop, recordMessageSent, Prog.call_bind] at hp
    rcases hp with _ | ⟨ok, hp⟩
    cases ok with
    | true =>
      rcases hp with _ | ⟨_, _ | ⟨_, hp⟩⟩
      simpa [countOps, List.countP_cons, Op.bumps, Op.upfKey] using ih hp
    | false => simpa [countOps, List.countP_cons, Op.bumps, Op.upfKey] using ih hp

lemma Op.not_sent {o : Op} (ho : o.isRouting = true ∨ o.isReport = true ∨ o.isReply = true) :
    Op.bumps .totalMessagesSent o = false ∧ o.upfKey = none := by
  cases o with
  | fetchAdd c => cases c <;> first | exact ⟨rfl, rfl⟩ | rcases ho with ho | ho | ho <;> cases ho
  | countUpfMessage u => rcases ho with ho | ho | ho <;> cases ho
  | _ => exact ⟨rfl, rfl⟩

lemma sent_counted_of_not (hl : ∀ a ∈ l, Op.bumps .totalMessagesSent a.op = false ∧
    a.op.upfKey = none) :
    countOps (Op.bumps .totalMessagesSent) l = countOps (fun o => o.upfKey.isSome) l := by
  rw [countOps_eq_zero fun a ha => (hl a ha).1,
    countOps_eq_zero (P := fun o => o.upfKey.isSome) fun a ha => by rw [(hl a ha).2]; rfl]

lemma forwardRequest_sent {data : List UInt8} {src : SocketAddr} {q : UInt32}
    {dec : RoutingDecision} (hp : Path (forwardRequest data src q dec) l (.done ())) :
    countOps (Op.bumps .totalMessagesSent) l = countOps (fun o => o.upfKey.isSome) l := by
  cases dec with
  | single u =>
    rcases hp with _ | ⟨_, _ | ⟨ok, hp⟩⟩
    cases ok with
    | true =>
      rcases hp with _ | ⟨_, _ | ⟨_, hp⟩⟩
      obtain ⟨rfl, _⟩ := path_done_iff.mp hp
      rfl
    | false =>
      rcases hp with _ | ⟨_, hp⟩
      obtain ⟨rfl, _⟩ := path_done_iff.mp hp
      rfl
  | broadcast bs =>
    simp only [forwardRequest, Prog.call_bind] at hp
    rcases hp with _ | ⟨_, hp⟩
    obtain ⟨m, l₁, l₂, rfl, hloop, hrest⟩ := path_bind_done hp
    have hl₂ : countOps (Op.bumps .totalMessagesSent) l₂ =
        countOps (fun o => o.upfKey.isSome) l₂ := by
      refine sent_counted_of_not (hrest.only
        (P := fun o => Op.bumps .totalMessagesSent o = false ∧ o.upfKey = none) ?_)
      split
      · exact ⟨⟨rfl, rfl⟩, fun _ => trivial⟩
      · trivial
    rw [countOps_cons_of_not rfl, countOps_cons_of_not rfl, countOps_append, countOps_append,
      hl₂, broadcastLoop_sent hloop]
  | _ =>
    obtain ⟨rfl, _⟩ := path_done_iff.mp hp
    rfl

/-- A handler that has returned has counted every message it sent to a UPF for that UPF. -/
lemma sent_counted (hp : Path (handleMessage d) l (.done ())) :
    countOps (Op.bumps .totalMessagesSent) l = countOps (fun o => o.upfKey.isSome) l := by
  cases hd : d.header with
  | none =>
    rw [acts_of_unparsed hd hp]
    rfl
  | some h =>
    cases hsmf : isSmfRequest h.msgType with
    | false =>
      apply sent_counted_of_not
      refine hp.only (P := fun o => Op.bumps .totalMessagesSent o = false ∧ o.upfKey = none) ?_
      simp only [handleMessage, hd, hsmf, recordMessageReceived, Prog.call_bind, Prog.act_bind,
        if_true]
      refine ⟨⟨rfl, rfl⟩, fun _ => ⟨⟨rfl, rfl⟩, fun _ => ?_⟩⟩
      split
      · exact (handleUpfRequest_report _ _ _ _).mono fun o ho => Op.not_sent (.inr (.inl ho))
      · exact (handleResponse_reply _ _).mono fun o ho => Op.not_sent (.inr (.inr ho))
    | true =>
      rw [handleMessage_smf hd hsmf] at hp
      obtain ⟨_, l₁, l', rfl, hp₁, hp⟩ := path_bind_done hp
      obtain ⟨dec, l₂, l₃, rfl, hp₂, hp₃⟩ := path_bind_done hp
      have h₁ := sent_counted_of_not (hp₁.only
        (P := fun o => Op.bumps .totalMessagesSent o = false ∧ o.upfKey = none)
        ⟨⟨rfl, rfl⟩, fun _ => ⟨⟨rfl, rfl⟩, fun _ => trivial⟩⟩)
      have h₂ := sent_counted_of_not fun a ha =>
        Op.not_sent (.inl (hp₂.only (routeMessage_only hsmf _ _) a ha))
      rw [countOps_append, countOps_append, h₁, h₂, countOps_append, countOps_append,
        forwardRequest_sent hp₃]

end PfcpProxy
