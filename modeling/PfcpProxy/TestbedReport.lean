import PfcpProxy.TestbedAnswers
import PfcpProxy.OrderIndependence

/-!
# What the report of the proxy says about the testbed

The statistics of the proxy against what the other programs have seen: the UPFs count the messages
they receive themselves, and the clients receive the responses.
-/

namespace PfcpProxy

open AtomicTasks

/-! ### One handler -/

section Handlers

variable {d : Datagram} {h : Header} {l : Acts} {u : SocketAddr}

/-- The operation counts a message for the UPF. -/
def Op.countsFor (u : SocketAddr) (o : Op) : Bool := o.upfKey = some u

/-- The datagrams put on the network for an address. -/
def sentTo (u : SocketAddr) (l : Acts) : ℕ := (l.filterMap transmission).countP fun x => x.2 = u

lemma sentTo_append (l l' : Acts) : sentTo u (l ++ l') = sentTo u l + sentTo u l' := by
  rw [sentTo, List.filterMap_append, List.countP_append]
  rfl

lemma transmission_of_not_send {a : Act Op.Res} (ha : a.op.isSend = false) :
    transmission a = none := by
  obtain ⟨o, res⟩ := a
  cases o <;> first | rfl | cases ha

lemma sentTo_eq_zero (hl : ∀ a ∈ l, a.op.isSend = false) : sentTo u l = 0 := by
  have hnil : l.filterMap transmission = [] :=
    List.filterMap_eq_nil_iff.mpr fun a ha => transmission_of_not_send (hl a ha)
  rw [sentTo, hnil]
  rfl

lemma countsFor_of_not (hl : ∀ a ∈ l, a.op.upfKey = none ∧ a.op.isSend = false) :
    countOps (Op.countsFor u) l = sentTo u l := by
  rw [sentTo_eq_zero fun a ha => (hl a ha).2,
    countOps_eq_zero fun a ha => by simp [Op.countsFor, (hl a ha).1]]

lemma countsFor_append (l l' : Acts) (hl : countOps (Op.countsFor u) l = sentTo u l)
    (hl' : countOps (Op.countsFor u) l' = sentTo u l') :
    countOps (Op.countsFor u) (l ++ l') = sentTo u (l ++ l') := by
  rw [countOps_append, sentTo_append, hl, hl']

lemma countsFor_sent (data : List UInt8) (v : SocketAddr) (r r' : Unit) :
    countOps (Op.countsFor u) [⟨.sendTo data v, true⟩, ⟨.fetchAdd .totalMessagesSent, r⟩,
        ⟨.countUpfMessage v, r'⟩] =
      sentTo u [⟨.sendTo data v, true⟩, ⟨.fetchAdd .totalMessagesSent, r⟩,
        ⟨.countUpfMessage v, r'⟩] := by
  have hsent : List.filterMap transmission [⟨.sendTo data v, true⟩,
      ⟨.fetchAdd .totalMessagesSent, r⟩, ⟨.countUpfMessage v, r'⟩] = [(data, v)] := rfl
  rw [sentTo, hsent]
  simp [countOps, List.countP_cons, Op.countsFor, Op.upfKey]

lemma countsFor_failed (data : List UInt8) (v : SocketAddr) :
    countOps (Op.countsFor u) [⟨.sendTo data v, false⟩] = sentTo u [⟨.sendTo data v, false⟩] := by
  have hsent : List.filterMap transmission [⟨.sendTo data v, false⟩] = [] := rfl
  rw [sentTo, hsent]
  simp [countOps, Op.countsFor, Op.upfKey]

lemma broadcastLoop_countsFor {data : List UInt8} {bs : List SocketAddr} {n m : ℕ}
    (hp : Path (broadcastLoop data bs n) l (.done m)) :
    countOps (Op.countsFor u) l = sentTo u l := by
  induction bs generalizing n l with
  | nil =>
    obtain ⟨rfl, _⟩ := path_done_iff.mp hp
    rfl
  | cons b bs ih =>
    simp only [broadcastLoop, recordMessageSent, Prog.call_bind] at hp
    rcases hp with _ | ⟨ok, hp⟩
    cases ok with
    | true =>
      rcases hp with _ | ⟨_, _ | ⟨_, hp⟩⟩
      exact countsFor_append _ _ (countsFor_sent data b () ()) (ih hp)
    | false => exact countsFor_append _ _ (countsFor_failed data b) (ih hp)

lemma forwardRequest_countsFor {data : List UInt8} {src : SocketAddr} {q : UInt32}
    {dec : RoutingDecision} (hp : Path (forwardRequest data src q dec) l (.done ())) :
    countOps (Op.countsFor u) l = sentTo u l := by
  have hinsert (a : SocketAddr) (b : Bool) : countOps (Op.countsFor u)
      [⟨.pendingInsert q a b false, ()⟩] = sentTo u [⟨.pendingInsert q a b false, ()⟩] :=
    countsFor_of_not (by simp [Op.upfKey, Op.isSend])
  have hremove : countOps (Op.countsFor u) [⟨.pendingRemove q, ()⟩] =
      sentTo u [⟨.pendingRemove q, ()⟩] := countsFor_of_not (by simp [Op.upfKey, Op.isSend])
  cases dec with
  | single v =>
    rcases hp with _ | ⟨_, _ | ⟨ok, hp⟩⟩
    cases ok with
    | true =>
      rcases hp with _ | ⟨_, _ | ⟨_, hp⟩⟩
      obtain ⟨rfl, _⟩ := path_done_iff.mp hp
      exact countsFor_append [_] _ (hinsert src false) (countsFor_sent data v () ())
    | false =>
      rcases hp with _ | ⟨_, hp⟩
      obtain ⟨rfl, _⟩ := path_done_iff.mp hp
      exact countsFor_append [_] _ (hinsert src false)
        (countsFor_append [_] _ (countsFor_failed data v) hremove)
  | broadcast bs =>
    simp only [forwardRequest, Prog.call_bind] at hp
    rcases hp with _ | ⟨_, hp⟩
    obtain ⟨m, l₁, l₂, rfl, hloop, hrest⟩ := path_bind_done hp
    refine countsFor_append [_] _ (hinsert src true)
      (countsFor_append _ _ (broadcastLoop_countsFor hloop) ?_)
    split at hrest
    · rcases hrest with _ | ⟨_, hrest⟩
      obtain ⟨rfl, _⟩ := path_done_iff.mp hrest
      exact hremove
    · obtain ⟨rfl, _⟩ := path_done_iff.mp hrest
      rfl
  | _ =>
    obtain ⟨rfl, _⟩ := path_done_iff.mp hp
    rfl

lemma Op.isSend_of_routing {o : Op} (ho : o.isRouting = true) : o.isSend = false := by
  cases o <;> first | rfl | cases ho

/-- The handler of a request counts each message it has sent for the UPF it was sent to. -/
lemma request_countsFor (hd : d.header = some h) (ht : isSmfRequest h.msgType = true)
    (hp : Path (handleMessage d) l (.done ())) : countOps (Op.countsFor u) l = sentTo u l := by
  rw [handleMessage_smf hd ht] at hp
  obtain ⟨_, l₁, l', rfl, hp₁, hp⟩ := path_bind_done hp
  obtain ⟨dec, l₂, l₃, rfl, hp₂, hp₃⟩ := path_bind_done hp
  have honly : Only (fun o => o.upfKey = none ∧ o.isSend = false)
      (recordMessageReceived h.msgType) := by
    simp [recordMessageReceived, Op.upfKey, Op.isSend]
  have hreceived : countOps (Op.countsFor u) l₁ = sentTo u l₁ :=
    countsFor_of_not fun a ha => hp₁.only honly a ha
  have hrouted : countOps (Op.countsFor u) l₂ = sentTo u l₂ := by
    apply countsFor_of_not
    intro a ha
    have hroute := hp₂.only (routeMessage_only ht _ _) a ha
    exact ⟨(Op.not_sent (.inl hroute)).2, Op.isSend_of_routing hroute⟩
  exact countsFor_append _ _ hreceived
    (countsFor_append _ _ hrouted (forwardRequest_countsFor hp₃))

lemma response_forwarded (hd : d.header = some h) (ht : isRequest h.msgType = false) :
    Guarded (fun _ _ => True) (fun _ l => countOps (Op.bumps .totalResponsesForwarded) l =
      (l.filterMap transmission).length) (handleMessage d) [] := by
  rw [handleMessage_response hd ht]
  simp only [recordMessageReceived, handleResponse, recordResponseForwarded,
    recordResponseDropped, Prog.call_bind, Prog.act_bind, Prog.pure_eq, Prog.done_bind,
    guarded_act, true_and]
  intro _ _ r
  rcases r with _ | ⟨o, b, n, f⟩
  · exact ⟨trivial, fun _ => rfl⟩
  · simp only [guarded_act, true_and]
    intro ok
    cases ok with
    | false => rfl
    | true =>
      cases b with
      | false => exact ⟨trivial, fun _ => ⟨trivial, fun _ => rfl⟩⟩
      | true =>
        simp only [if_true, guarded_act, true_and]
        intro bs _
        split
        · exact ⟨trivial, fun _ => rfl⟩
        · rfl

lemma response_countsFor (hd : d.header = some h) (ht : isRequest h.msgType = false) :
    Only (fun o => o.upfKey = none) (handleMessage d) := by
  rw [handleMessage_response hd ht]
  refine only_bind ⟨rfl, fun _ => ⟨rfl, fun _ => trivial⟩⟩ fun _ => ?_
  exact (handleResponse_reply _ _).mono fun o ho => (Op.not_sent (.inr (.inr ho))).2

end Handlers

/-! ### Counts of a run -/

section Counts

variable {p₀ : Proxy} {hist : History} {c : Config Op.Res Proxy Datagram} {u : SocketAddr}

/-- The count of a UPF is the number of times a message was counted for it, up to overflow. -/
lemma upfMessageCounts_eq_tally (hp₀ : p₀.stats = Statistics.new) (hr : Run proxy p₀ hist c) :
    (c.shared.stats.upfMessageCounts.get u).getD 0 =
      UInt64.ofNat (tally (Op.countsFor u) hist) := by
  induction hr with
  | nil =>
    rw [hp₀]
    rfl
  | @snoc hist c c' e hr hs ih =>
    rw [tally_append]
    cases hs with
    | recv d => exact ih
    | env e => exact (congrArg (fun st : Statistics => (st.upfMessageCounts.get u).getD 0)
        (envStep_stats e _)).trans ih
    | act i d o f w hi =>
      rw [tally_act, show proxy.exec = exec from rfl, exec_upfMessageCounts]
      cases hk : o.upfKey with
      | none => simp [Op.countsFor, hk, ih, tally]
      | some v =>
        by_cases hv : u = v
        · subst hv
          simp [Op.countsFor, hk, ih, tally, get_countKey]
        · have hv' : v ≠ u := fun h => hv h.symm
          simp [Op.countsFor, hk, ih, tally, get_countKey, hv, hv']

end Counts

namespace Testbed

variable {T : Testbed} {s s' : State}

/-- A UPF counts what it has received. -/
structure Counted (T : Testbed) (s : State) : Prop where
  totalMessages : ∀ u ∈ T.upfs, (s.upfStats u).totalMessages =
    UInt64.ofNat (s.fromProxy.delivered.countP fun x => x.2 = u ∧ (T.codec.parse x.1).isSome)

lemma Counted.step (hc : Counted T s) (hstep : Step T s s') : Counted T s' := by
  constructor
  intro u hu
  have hbefore := hc.totalMessages u hu
  cases hstep with
  | respond x hx body hu' =>
    simp only [State.respond, Medium.countP_deliver]
    by_cases hxu : u = x.2
    · subst hxu
      rw [Function.update_self, TestUpf.handleMessage_totalMessages, hbefore]
      cases hparse : T.codec.parse x.1 <;> simp
    · have hne : x.2 ≠ u := fun h => hxu h.symm
      rw [Function.update_of_ne hxu, hbefore]
      simp [hne]
  | arrive x hx hu' =>
    have hne : x.2 ≠ u := fun h => hu' (h ▸ hu)
    simp [Medium.countP_deliver, hbefore, hne]
  | faultTo m hm => exact hbefore
  | faultFrom m hm => rw [hbefore, ← hm.delivered_eq]
  | _ => exact hbefore

lemma Reach.counted (hr : Reach T s) : Counted T s := by
  induction hr with
  | start => exact ⟨fun _ _ => rfl⟩
  | step _ hstep ih => exact ih.step hstep

lemma Accounted.received (ha : Accounted T s) (hs : Sound T s) {d : Datagram}
    (hd : d ∈ s.toProxy.sent) : ∃ h, d.header = some h ∧
      (isSmfRequest h.msgType = true ∨ isRequest h.msgType = false) := by
  obtain ⟨h, hg⟩ := ha.genuine d hd
  refine ⟨h, hg.header, ?_⟩
  rcases hg.origin with hask | ⟨_, _, _, _, hto⟩
  · exact .inl (hs.built _ _ hask).1
  · exact .inr (TestUpf.responseTo_header hto).2.1

lemma Accounted.toward (ha : Accounted T s) (hs : Sound T s) {x : List UInt8 × SocketAddr}
    (hx : x ∈ s.fromProxy.sent) : ∃ h, T.codec.parse x.1 = some h ∧
      (isSmfRequest h.msgType = true → x.2 ∈ T.upfs) ∧
      (isRequest h.msgType = false → x.2 ∉ T.upfs) := by
  obtain ⟨d, hd, h, hh, hdata, hsmf, hresp⟩ := hs.transmission hx
  have hparse : T.codec.parse x.1 = some h := by rw [hdata, ← hs.parsed d hd, hh]
  refine ⟨h, hparse, hsmf, fun hnot => ?_⟩
  obtain ⟨d', hd', h', hh', hreq, _, hsrc⟩ := hresp hnot
  have hask := (ha.genuine_of_mem hd' hh').mem_asked hreq
  exact hsrc ▸ hs.clients _ hask

lemma Accounted.task_toward (ha : Accounted T s) (hs : Sound T s) {i : ℕ} {d : Datagram}
    {h : Header} (hz : (i, d) ∈ receptions s.hist) (hh : d.header = some h)
    {x : List UInt8 × SocketAddr} (hx : x ∈ transmissionsOf i s.hist) :
    (isSmfRequest h.msgType = true → x.2 ∈ T.upfs) ∧
      (isRequest h.msgType = false → x.2 ∉ T.upfs) := by
  have hsend := mem_transmissionsOf.mp hx
  have hsent : x ∈ s.fromProxy.sent := by
    rw [← hs.transmitted, Multiset.mem_coe, mem_transmissions]
    exact ⟨i, hsend⟩
  obtain ⟨y, pre, z, hsplit⟩ := exists_split_of_mem_acts hsend
  have hrun := hs.run
  have hrecv := mem_receptions_iff.mp hz
  rw [hsplit] at hrun hrecv
  obtain ⟨_, _, _, hdata, _⟩ := conduct_of_recv hrun hrecv
  obtain ⟨h', hparse, hboth⟩ := ha.toward hs hsent
  rw [hdata, ← hs.parsed d (hs.sent_of_received hz), hh, Option.some.injEq] at hparse
  exact hparse ▸ hboth

lemma Sound.path (hs : Sound T s) (hq : Quiescent s.proxy) {i : ℕ} {d : Datagram}
    (hz : (i, d) ∈ receptions s.hist) : Path (handleMessage d) (acts i s.hist) (.done ()) := by
  have hd := mem_receptions_iff.mp hz
  exact (hq.finished hs.run hd).path hs.run hd

lemma Accounted.tally_received (ha : Accounted T s) (hs : Sound T s) (hq : Quiescent s.proxy) :
    tally (Op.bumps .totalMessagesReceived) s.hist = (receptions s.hist).length := by
  have hone : (receptions s.hist).map
      (fun z => (acts z.1 s.hist).countP fun a => Op.bumps .totalMessagesReceived a.op) =
      (receptions s.hist).map fun _ => 1 := by
    apply List.map_congr_left
    rintro ⟨i, d⟩ hz
    obtain ⟨h, hh, _⟩ := ha.received hs (hs.sent_of_received hz)
    exact (received_once hh (hs.path hq hz)).1
  rw [hs.run.tally_eq_sum_receptions, hone, List.map_const', List.sum_replicate_nat, mul_one]

/-- Each message is counted for the UPF it is sent to. -/
lemma Accounted.tally_countsFor (ha : Accounted T s) (hs : Sound T s) (hq : Quiescent s.proxy)
    {u : SocketAddr} (hu : u ∈ T.upfs) :
    tally (Op.countsFor u) s.hist = s.fromProxy.sent.countP fun x => x.2 = u := by
  have htasks : (receptions s.hist).map
      (fun z => (acts z.1 s.hist).countP fun a => Op.countsFor u a.op) =
      (receptions s.hist).map fun z => (transmissionsOf z.1 s.hist).countP fun x => x.2 = u := by
    apply List.map_congr_left
    rintro ⟨i, d⟩ hz
    obtain ⟨h, hh, hreq | hresp⟩ := ha.received hs (hs.sent_of_received hz)
    · exact request_countsFor hh hreq (hs.path hq hz)
    · have hnone := fun a ha => (hs.path hq hz).only (response_countsFor hh hresp) a ha
      have hoff : ∀ x ∈ transmissionsOf i s.hist, x.2 ≠ u :=
        fun x hx heq => (ha.task_toward hs hz hh hx).2 hresp (heq ▸ hu)
      have hzero : countOps (Op.countsFor u) (acts i s.hist) = 0 :=
        countOps_eq_zero fun a ha => by simp [Op.countsFor, hnone a ha]
      exact hzero.trans (List.countP_eq_zero.mpr fun x hx => by simpa using hoff x hx).symm
  rw [hs.run.tally_eq_sum_receptions, htasks, ← countP_transmissions hs.run,
    hs.countP_transmitted]
  simp

/-- What is sent to clients is counted as forwarded. -/
lemma Accounted.tally_forwarded (ha : Accounted T s) (hs : Sound T s) (hq : Quiescent s.proxy) :
    tally (Op.bumps .totalResponsesForwarded) s.hist =
      s.fromProxy.sent.countP fun x => x.2 ∉ T.upfs := by
  have htasks : (receptions s.hist).map
      (fun z => (acts z.1 s.hist).countP fun a => Op.bumps .totalResponsesForwarded a.op) =
      (receptions s.hist).map fun z =>
        (transmissionsOf z.1 s.hist).countP fun x => x.2 ∉ T.upfs := by
    apply List.map_congr_left
    rintro ⟨i, d⟩ hz
    have hpath := hs.path hq hz
    obtain ⟨h, hh, hreq | hresp⟩ := ha.received hs (hs.sent_of_received hz)
    · have hnone := fun a ha =>
        hpath.only (request_unsettled hh (by simp [isRequest, hreq])) a ha
      have hin : ∀ x ∈ transmissionsOf i s.hist, x.2 ∈ T.upfs :=
        fun x hx => (ha.task_toward hs hz hh hx).1 hreq
      have hzero : countOps (Op.bumps .totalResponsesForwarded) (acts i s.hist) = 0 :=
        countOps_eq_zero fun a ha => by
          have hoff := hnone a ha
          cases ho : a.op with
          | fetchAdd c => cases c <;> simp_all [Op.bumps, Op.settles]
          | _ => rfl
      exact hzero.trans (List.countP_eq_zero.mpr fun x hx => by simpa using hin x hx).symm
    · have hout : ∀ x ∈ transmissionsOf i s.hist, x.2 ∉ T.upfs :=
        fun x hx => (ha.task_toward hs hz hh hx).2 hresp
      have hforwarded := (response_forwarded hh hresp).path hpath
      rw [List.nil_append] at hforwarded
      exact hforwarded.trans (List.countP_eq_length.mpr fun x hx => by simpa using hout x hx).symm
  rw [hs.run.tally_eq_sum_receptions, htasks, ← countP_transmissions hs.run,
    hs.countP_transmitted]
  simp

/-- The statistics agree with what the others have seen: once the handlers have returned and
everything has arrived, the proxy has received all requests and responses, has counted for each UPF
what that has counted itself, and has forwarded what the clients have received. -/
theorem report_agrees (hr : Reach T s) (hfew : s.Few) (hto : s.toProxy.Settled)
    (hfrom : s.fromProxy.Settled) (hq : Quiescent s.proxy) :
    s.proxy.shared.stats.totalMessagesReceived =
      UInt64.ofNat (Multiset.card s.requests + Multiset.card (s.responses T)) ∧
    (∀ u ∈ T.upfs, (s.proxy.shared.stats.upfMessageCounts.get u).getD 0 =
      (s.upfStats u).totalMessages) ∧
    s.proxy.shared.stats.totalResponsesForwarded =
      UInt64.ofNat (s.fromProxy.delivered.countP fun x => x.2 ∉ T.upfs) := by
  have hs := hr.sound
  have ha := hr.accounted hfew
  refine ⟨?_, fun u hu => ?_, ?_⟩
  · have hcards := congrArg Multiset.card ha.account
    rw [Multiset.card_map, Multiset.card_map, Multiset.card_add] at hcards
    have hreceived := congrArg Multiset.card hs.received
    rw [Multiset.coe_card, List.length_map, hto.delivered_eq] at hreceived
    rw [← hcards, ← hreceived, ← ha.tally_received hs hq]
    exact read_eq_tally rfl hs.run .totalMessagesReceived
  · rw [upfMessageCounts_eq_tally rfl hs.run, ha.tally_countsFor hs hq hu,
      hr.counted.totalMessages u hu, hfrom.delivered_eq]
    congr 1
    apply Multiset.countP_congr rfl
    intro x hx
    obtain ⟨h, hparse, _⟩ := ha.toward hs hx
    simp [hparse]
  · rw [hfrom.delivered_eq, ← ha.tally_forwarded hs hq]
    exact read_eq_tally rfl hs.run .totalResponsesForwarded

theorem report_agrees_answered :
    answered.proxy.shared.stats.totalMessagesReceived = 5 ∧
    (answered.proxy.shared.stats.upfMessageCounts.get upfX).getD 0 = 2 ∧
    answered.proxy.shared.stats.totalResponsesForwarded = 3 := by
  obtain ⟨hreceived, hcounts, hforwarded⟩ := report_agrees answered_reach answered_few
    answered_settled.toProxy answered_settled.fromProxy answered_settled.handled
  refine ⟨hreceived.trans ?_, (hcounts upfX (by decide)).trans ?_, hforwarded.trans ?_⟩
  · decide +kernel
  · decide +kernel
  · decide +kernel

end Testbed

end PfcpProxy
