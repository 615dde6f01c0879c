import PfcpProxy.Lib.Commutation
import PfcpProxy.Linearizability

/-!
# Order independence of unrelated messages

Modifications, deletions, reports and responses work on the session table under their SEID,
on the pending table under their sequence number, on the counters and on nothing else that
changes. Where these are distinct, the handlers commute, timestamps aside.
-/

namespace PfcpProxy

open AtomicTasks

/-! ### Agreement of states -/

/-- The entry without its timestamp. -/
def RequestInfo.untimed (info : RequestInfo) : SocketAddr × Bool × ℕ × Bool :=
  (info.originAddr, info.isBroadcast, info.responsesReceived, info.fromUpf)

/-- The same tables, pool and counters, timestamps aside. -/
structure SameApartFromTime (p p' : Proxy) : Prop where
  sessionTable : p.sessionTable.SameMapping p'.sessionTable
  pendingRequests : ∀ q, (p.pendingRequests.get q).map RequestInfo.untimed =
    (p'.pendingRequests.get q).map RequestInfo.untimed
  upfPool : p.upfPool = p'.upfPool
  stats : p.stats = p'.stats

lemma sameApartFromTime_equivalence : Equivalence SameApartFromTime where
  refl _ := ⟨fun _ => rfl, fun _ => rfl, rfl, rfl⟩
  symm h := ⟨fun s => (h.sessionTable s).symm, fun q => (h.pendingRequests q).symm,
    h.upfPool.symm, h.stats.symm⟩
  trans h h' := ⟨fun s => (h.sessionTable s).trans (h'.sessionTable s),
    fun q => (h.pendingRequests q).trans (h'.pendingRequests q), h.upfPool.trans h'.upfPool,
    h.stats.trans h'.stats⟩

lemma tick_sameApartFromTime (δ : Duration) (p : Proxy) :
    SameApartFromTime (envStep (.tick δ) p) p := ⟨fun _ => rfl, fun _ => rfl, rfl, rfl⟩

/-! ### The components -/

/-- The SEID whose entry an operation reads or writes. -/
def Op.sessionAccess : Op → Option UInt64
  | .sessionInsert s _ _ | .sessionLookup s | .sessionLookupFull s | .sessionRemove s => some s
  | _ => none

/-- The sessions without their timestamps. -/
def sessionView : KeyedView exec UInt64 (Option (SocketAddr × SocketAddr)) where
  key := Op.sessionAccess
  view s p := p.sessionTable.lookupFull s
  next
    | .sessionInsert _ u a, _ => some (u, a)
    | .sessionRemove _, _ => none
    | _, v => v
  fits
    | ⟨.sessionLookup _, r⟩, v => r = v.map Prod.fst
    | ⟨.sessionLookupFull _, r⟩, v => r = v
    | _, _ => True
  view_hit o w p s hs := by
    cases o with
    | sessionInsert s' u a =>
      cases hs
      simp [exec, SessionTable.lookupFull_insert]
    | sessionRemove s' =>
      cases hs
      simp [exec, SessionTable.lookupFull_remove]
    | _ => rfl
  view_miss o w p s hs := by
    apply exec_lookupFull_of_ne
    cases o <;> first | exact hs | simp [Op.sessionKey]
  fits_iff o r w p s hs := by
    cases o with
    | sessionInsert s' u a => simp [exec]
    | sessionLookup s' =>
      cases hs
      simp [exec, SessionTable.lookup_eq]
    | sessionLookupFull s' =>
      cases hs
      rfl
    | sessionRemove s' => simp [exec]
    | _ => cases hs

/-- What an operation does to the counters. -/
def Op.counts : Op → Statistics → Statistics
  | .fetchAdd c, s => s.fetchAdd c
  | .countMsgType t, s => s.countMsgType t
  | .countUpfMessage u, s => s.countUpfMessage u
  | _, s => s

lemma exec_stats (o : Op) (w : Bool) (p : Proxy) : (exec o w p).2.stats = o.counts p.stats := by
  cases o <;> rfl

lemma get_countKey {K : Type} [DecidableEq K] (t : Table K UInt64) (k k' : K) :
    (Statistics.countKey t k).get k' =
      if k' = k then some ((t.get k).getD 0 + 1) else t.get k' := by
  unfold Statistics.countKey
  cases ht : t.get k <;> simp [Table.get_insert]

lemma countKey_comm {K : Type} [DecidableEq K] (t : Table K UInt64) (k k' : K) :
    Statistics.countKey (Statistics.countKey t k) k' =
      Statistics.countKey (Statistics.countKey t k') k := by
  apply Table.ext
  intro j
  simp only [get_countKey]
  by_cases hk : k = k'
  · rw [hk]
  · have hk' : k' ≠ k := fun h => hk h.symm
    by_cases hj : j = k
    · simp [hj, hk]
    · simp [hj, hk']

lemma counts_comm (o o' : Op) (s : Statistics) : o'.counts (o.counts s) = o.counts (o'.counts s) := by
  cases o with
  | fetchAdd c =>
    cases o' with
    | fetchAdd c' => cases c <;> cases c' <;> rfl
    | countMsgType t => cases c <;> rfl
    | countUpfMessage u => cases c <;> rfl
    | _ => rfl
  | countMsgType t =>
    cases o' with
    | fetchAdd c => cases c <;> rfl
    | countMsgType t' =>
      simp only [Op.counts, Statistics.countMsgType, countKey_comm s.msgTypeCounts t t']
    | _ => rfl
  | countUpfMessage u =>
    cases o' with
    | fetchAdd c => cases c <;> rfl
    | countUpfMessage u' =>
      simp only [Op.counts, Statistics.countUpfMessage, countKey_comm s.upfMessageCounts u u']
    | _ => rfl
  | _ => rfl

/-! ### Footprints -/

/-- The sequence numbers differ, and so do the SEIDs if neither message is a response. -/
structure DistinctKeys (h h' : Header) : Prop where
  sequence : h.sequence ≠ h'.sequence
  seid : isRequest h.msgType = true → isRequest h'.msgType = true →
    ∀ s, h.seid = some s → h'.seid ≠ some s

/-- What the handler of an unrelated message works on. -/
def Footprint (h : Header) : Op → Prop
  | .sessionLookup s | .sessionLookupFull s | .sessionRemove s =>
    h.seid = some s ∧ isRequest h.msgType = true
  | .pendingInsert q _ _ _ | .pendingLookupAndIncrement q | .pendingRemove q => q = h.sequence
  | .poolAllBackends | .sendTo _ _ | .fetchAdd _ | .countMsgType _ | .countUpfMessage _ => True
  | _ => False

namespace Footprint

variable {h h' : Header} {o o' : Op}

lemma seid {s : UInt64} (hf : Footprint h o) (hs : o.sessionAccess = some s) :
    h.seid = some s ∧ isRequest h.msgType = true := by
  cases o with
  | sessionInsert s' u a => cases hf
  | sessionLookup s' =>
    cases hs
    exact hf
  | sessionLookupFull s' =>
    cases hs
    exact hf
  | sessionRemove s' =>
    cases hs
    exact hf
  | _ => cases hs

lemma sequence {q : UInt32} (hf : Footprint h o) (hq : o.pendingKey = some q) : q = h.sequence := by
  cases o with
  | pendingInsert q' a b f =>
    cases hq
    exact hf
  | pendingLookupAndIncrement q' =>
    cases hq
    exact hf
  | pendingRemove q' =>
    cases hq
    exact hf
  | _ => cases hq

lemma upfPool (hf : Footprint h o) (w : Bool) (p : Proxy) :
    (exec o w p).2.upfPool = p.upfPool := by
  cases o with
  | poolNextIndex => cases hf
  | _ => rfl

lemma answer_congr (hf : Footprint h o) (w : Bool) {p p' : Proxy}
    (hs : ∀ s, o.sessionAccess = some s → sessionView.view s p = sessionView.view s p')
    (hq : ∀ q, o.pendingKey = some q → pendingView.view q p = pendingView.view q p')
    (hpool : p.upfPool = p'.upfPool) : (exec o w p).1 = (exec o w p').1 := by
  cases hseid : o.sessionAccess with
  | some s => exact sessionView.answer_congr hseid w (hs s hseid)
  | none =>
    cases hkey : o.pendingKey with
    | some q => exact pendingView.answer_congr hkey w (hq q hkey)
    | none =>
      cases o with
      | poolAllBackends => exact congrArg UpfPool.backends hpool
      | sendTo data dst => rfl
      | fetchAdd c => rfl
      | countMsgType t => rfl
      | countUpfMessage u => rfl
      | sessionLookup s => cases hseid
      | sessionLookupFull s => cases hseid
      | sessionRemove s => cases hseid
      | pendingInsert q a b f => cases hkey
      | pendingLookupAndIncrement q => cases hkey
      | pendingRemove q => cases hkey
      | _ => cases hf

lemma respects (hf : Footprint h o) : Respects exec SameApartFromTime o := by
  intro w p p' hsame
  refine ⟨hf.answer_congr w (fun s _ => hsame.sessionTable s) (fun q _ => hsame.pendingRequests q)
    hsame.upfPool, sessionView.view_congr o w hsame.sessionTable,
    pendingView.view_congr o w hsame.pendingRequests, ?_, ?_⟩
  · rw [hf.upfPool, hf.upfPool, hsame.upfPool]
  · rw [exec_stats, exec_stats, hsame.stats]

lemma independent (hf : Footprint h o) (hf' : Footprint h' o') (hne : DistinctKeys h h') :
    Independent exec SameApartFromTime o o' := by
  have hseid (s : UInt64) (hs : o.sessionAccess = some s) : o'.sessionAccess ≠ some s := by
    intro hs'
    exact hne.seid (hf.seid hs).2 (hf'.seid hs').2 s (hf.seid hs).1 (hf'.seid hs').1
  have hseq (q : UInt32) (hq : o.pendingKey = some q) : o'.pendingKey ≠ some q := by
    intro hq'
    exact hne.sequence ((hf.sequence hq).symm.trans (hf'.sequence hq'))
  constructor
  · intro w w' p
    apply hf.answer_congr w
    · exact fun s hs => sessionView.view_miss o' w' p s (hseid s hs)
    · exact fun q hq => pendingView.view_miss o' w' p q (hseq q hq)
    · exact hf'.upfPool w' p
  · intro w w' p
    apply hf'.answer_congr w'
    · exact fun s hs => sessionView.view_miss o w p s fun hs' => hseid s hs' hs
    · exact fun q hq => pendingView.view_miss o w p q fun hq' => hseq q hq' hq
    · exact hf.upfPool w p
  · intro w w' p
    constructor
    · exact sessionView.view_comm hseid w w' p
    · exact pendingView.view_comm hseq w w' p
    · rw [hf'.upfPool, hf.upfPool, hf.upfPool, hf'.upfPool]
    · rw [exec_stats, exec_stats, exec_stats, exec_stats, counts_comm]

end Footprint

/-! ### Handlers -/

/-- The messages that do not select a backend. -/
def IsUnrelatedKind (t : MsgType) : Prop :=
  t = .sessionModificationRequest ∨ t = .sessionDeletionRequest ∨ t = .sessionReportRequest ∨
    isRequest t = false

section Handlers

variable {h : Header} (data : List UInt8) (src : SocketAddr)

lemma recordMessageReceived_footprint (t : MsgType) :
    Only (Footprint h) (recordMessageReceived t) :=
  ⟨trivial, fun _ => ⟨trivial, fun _ => trivial⟩⟩

lemma forwardRequest_footprint (dec : RoutingDecision) :
    Only (Footprint h) (forwardRequest data src h.sequence dec) := by
  apply (forwardRequest_ops data src h.sequence dec).mono
  rintro o (⟨b, rfl⟩ | ⟨a, rfl⟩ | rfl | ⟨a, rfl⟩ | rfl)
  · exact rfl
  · trivial
  · trivial
  · trivial
  · exact rfl

lemma handleAffinity_footprint (ht : isRequest h.msgType = true) :
    Only (Footprint h) (routeAffinity h.msgType h.seid >>= forwardRequest data src h.sequence) := by
  cases hs : h.seid with
  | none => simp [routeAffinity, forwardRequest]
  | some s =>
    simp only [routeAffinity, Prog.call_bind, Prog.act_bind, only_act]
    refine ⟨⟨hs, ht⟩, fun u => ?_⟩
    cases u with
    | none => simp [forwardRequest]
    | some u =>
      have hsend := forwardRequest_footprint (h := h) data src (.single u)
      simp only [recordRoutingDecision, recordSessionDeleted]
      refine ⟨trivial, fun _ => ?_⟩
      split
      · exact ⟨trivial, fun _ => ⟨⟨hs, ht⟩, fun _ => hsend⟩⟩
      · exact hsend

lemma handleUpfRequest_footprint (ht : isRequest h.msgType = true) :
    Only (Footprint h) (handleUpfRequest data src h.seid h.sequence) := by
  apply (handleUpfRequest_ops data src h.seid h.sequence).mono
  rintro o (⟨s, hs, rfl⟩ | rfl | ⟨a, rfl⟩ | rfl)
  · exact ⟨hs, ht⟩
  · exact rfl
  · trivial
  · exact rfl

lemma handleResponse_footprint : Only (Footprint h) (handleResponse data h.sequence) := by
  apply (handleResponse_ops data h.sequence).mono
  rintro o (rfl | ⟨a, rfl⟩ | rfl | rfl | rfl | rfl)
  · exact rfl
  · trivial
  · trivial
  · trivial
  · trivial
  · exact rfl

/-- The handler of an unrelated message keeps to its footprint. -/
theorem handleMessage_footprint {d : Datagram} (hd : d.header = some h)
    (hkind : IsUnrelatedKind h.msgType) : Only (Footprint h) (handleMessage d) := by
  have hrecord := recordMessageReceived_footprint (h := h) h.msgType
  have haffinity (hsmf : isSmfRequest h.msgType = true)
      (hroute : routeMessage h.msgType h.seid d.src = routeAffinity h.msgType h.seid) :
      Only (Footprint h) (handleMessage d) := by
    rw [handleMessage_smf hd hsmf, hroute]
    exact only_bind hrecord fun _ => handleAffinity_footprint d.data d.src (by simp [isRequest, hsmf])
  rcases hkind with ht | ht | ht | ht
  · exact haffinity (by rw [ht]; rfl) (by rw [ht]; rfl)
  · exact haffinity (by rw [ht]; rfl) (by rw [ht]; rfl)
  · have hupf : isUpfRequest h.msgType = true := by rw [ht]; rfl
    rw [handleMessage_upf hd hupf]
    exact only_bind hrecord fun _ =>
      handleUpfRequest_footprint d.data d.src (by simp [isRequest, hupf])
  · rw [handleMessage_response hd ht]
    exact only_bind hrecord fun _ => handleResponse_footprint d.data

end Handlers

/-! ### Any order -/

/-- A message of one of the kinds that do not select a backend. -/
def IsUnrelated (d : Datagram) : Prop := ∃ h, d.header = some h ∧ IsUnrelatedKind h.msgType

/-- The messages do not share a sequence number, nor a SEID if neither is a response. -/
def Datagram.DistinctKeys (d d' : Datagram) : Prop :=
  ∀ h h', d.header = some h → d'.header = some h' → PfcpProxy.DistinctKeys h h'

/-- Handle messages one at a time, where the clock advances before each of them: the state
they leave, and what the handler of each message has done. `ω d` decides the sends of `d`. -/
abbrev handledInOrder (ω : Datagram → ℕ → Bool) (xs : List (Duration × Datagram)) (p : Proxy) :
    Proxy × List (Datagram × Acts) :=
  runAllBetween exec handleMessage ω (fun δ => envStep (.tick δ)) xs p

/-- Order independence of unrelated traffic: modifications, deletions, reports and responses
under distinct sequence numbers and SEIDs can be handled in any order and at any times. Each
handler performs the same operations with the same answers, so it sends to the same
destination, refuses or drops alike, and the tables and counters end up the same,
timestamps aside. -/
theorem order_independent (ω : Datagram → ℕ → Bool) {xs ys : List (Duration × Datagram)}
    (hperm : (xs.map Prod.snd).Perm (ys.map Prod.snd))
    (hkinds : ∀ d ∈ xs.map Prod.snd, IsUnrelated d)
    (hdistinct : (xs.map Prod.snd).Pairwise Datagram.DistinctKeys) (p : Proxy) :
    (handledInOrder ω xs p).2.Perm (handledInOrder ω ys p).2 ∧
      SameApartFromTime (handledInOrder ω xs p).1 (handledInOrder ω ys p).1 := by
  have hE := sameApartFromTime_equivalence
  let foot (d : Datagram) (o : Op) : Prop := ∃ h, d.header = some h ∧ Footprint h o
  have hfoot : ∀ d ∈ xs.map Prod.snd, Only (foot d) (handleMessage d) := by
    intro d hd
    obtain ⟨h, hh, hkind⟩ := hkinds d hd
    exact (handleMessage_footprint hh hkind).mono fun o ho => ⟨h, hh, ho⟩
  have hresp (d : Datagram) (o : Op) : foot d o → Respects exec SameApartFromTime o := by
    rintro ⟨h, _, ho⟩
    exact ho.respects
  have hind : (xs.map Prod.snd).Pairwise (Unrelated exec SameApartFromTime foot) := by
    apply hdistinct.imp
    rintro d d' hkeys o o' ⟨h, hh, ho⟩ ⟨h', hh', ho'⟩
    exact ho.independent ho' (hkeys h h' hh hh')
  have hrespX : ∀ d ∈ xs.map Prod.snd, Only (Respects exec SameApartFromTime) (handleMessage d) :=
    fun d hd => (hfoot d hd).mono (hresp d)
  have hrespY : ∀ d ∈ ys.map Prod.snd, Only (Respects exec SameApartFromTime) (handleMessage d) :=
    fun d hd => hrespX d (hperm.mem_iff.mpr hd)
  obtain ⟨hactsX, hstateX⟩ := runAllBetween_eq (ω := ω) hE tick_sameApartFromTime hrespX p
  obtain ⟨hactsY, hstateY⟩ := runAllBetween_eq (ω := ω) hE tick_sameApartFromTime hrespY p
  obtain ⟨hacts, hstate⟩ := runAll_perm (ω := ω) hE hperm hfoot hresp hind p
  rw [handledInOrder, handledInOrder, hactsX, hactsY]
  exact ⟨hacts, hE.trans hstateX (hE.trans hstate (hE.symm hstateY))⟩

/-- Session 7 is deleted and the response to its establishment passed on, in either order. -/
theorem order_independent_two :
    SameApartFromTime
      (handledInOrder (fun _ _ => true)
        [(1, message .sessionDeletionRequest (some 7) 2 smfA),
          (5, message .sessionEstablishmentResponse (some 7) 1 upfX)] establishedByA.2.shared).1
      (handledInOrder (fun _ _ => true)
        [(2, message .sessionEstablishmentResponse (some 7) 1 upfX),
          (0, message .sessionDeletionRequest (some 7) 2 smfA)] establishedByA.2.shared).1 := by
  refine (order_independent _ ?_ ?_ ?_ _).2
  · exact List.Perm.swap _ _ _
  · intro d hd
    simp only [List.map_cons, List.map_nil, List.mem_cons, List.not_mem_nil, or_false] at hd
    rcases hd with rfl | rfl
    · exact ⟨_, rfl, .inr (.inl rfl)⟩
    · exact ⟨_, rfl, .inr (.inr (.inr rfl))⟩
  · simp only [List.map_cons, List.map_nil, List.pairwise_pair]
    rintro h h' ⟨⟩ ⟨⟩
    exact ⟨by decide, fun _ hresponse => absurd hresponse (by decide)⟩

end PfcpProxy
