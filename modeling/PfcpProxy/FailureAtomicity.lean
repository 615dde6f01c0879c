import PfcpProxy.Histories
import PfcpProxy.Sequential

/-!
# Requests whose sends all fail

What a request leaves behind when nothing of it leaves the proxy: the rollback removes the
pending entry by key, and routing is never rolled back.
-/

namespace PfcpProxy

open AtomicTasks

/-- The tables and the session counters are what they were. -/
structure Unchanged (p p' : Proxy) : Prop where
  sessionTable : p.sessionTable.SameMapping p'.sessionTable
  pendingRequests : p'.pendingRequests = p.pendingRequests
  established : p'.stats.sessionsEstablished = p.stats.sessionsEstablished
  deleted : p'.stats.sessionsDeleted = p.stats.sessionsDeleted

variable (p : Proxy) (src : SocketAddr) (ω : ℕ → Bool)

/-! ### The rollback -/

lemma AllSendsFailed.of_append {l l' : Acts} (h : AllSendsFailed (l ++ l')) : AllSendsFailed l' :=
  fun data dst hm => h data dst (List.mem_append_right _ hm)

lemma AllSendsFailed.of_cons {a : Act Op.Res} {l : Acts} (h : AllSendsFailed (a :: l)) :
    AllSendsFailed l :=
  fun data dst hm => h data dst (List.mem_cons_of_mem _ hm)

lemma run_allSendsFailed {α : Type} (f : Handler α) :
    AllSendsFailed (run exec f (fun _ => false) p).acts := by
  induction f generalizing p with
  | done a => simp [AllSendsFailed]
  | act o k ih =>
    intro data dst hm
    rw [run_act, List.mem_cons] at hm
    rcases hm with hm | hm
    · simp only [Act.mk.injEq] at hm
      obtain ⟨rfl, hres⟩ := hm
      cases hres
    · exact ih _ _ data dst hm

lemma run_broadcastLoop_failed (data : List UInt8) (bs : List SocketAddr) (n : ℕ)
    (hfail : AllSendsFailed (run exec (broadcastLoop data bs n) ω p).acts) :
    (run exec (broadcastLoop data bs n) ω p).value = n ∧
    (run exec (broadcastLoop data bs n) ω p).state = p := by
  induction bs generalizing ω with
  | nil => exact ⟨rfl, rfl⟩
  | cons b bs ih =>
    simp only [broadcastLoop, recordMessageSent, Prog.call_bind, run_act, exec] at hfail ⊢
    cases hω : ω 0 with
    | true =>
      rw [hω] at hfail
      exact absurd (List.mem_cons_self ..) (hfail data b)
    | false =>
      simp only [hω, Bool.false_eq_true, if_false] at hfail ⊢
      exact ih _ hfail.of_cons

/-- Forwarding that fails everywhere removes whatever is pending under the sequence number. -/
lemma run_forwardRequest_failed (data : List UInt8) (q : UInt32) {dec : RoutingDecision}
    (hdec : dec.isFailure = false)
    (hfail : AllSendsFailed (run exec (forwardRequest data src q dec) ω p).acts) :
    (run exec (forwardRequest data src q dec) ω p).state.pendingRequests =
      p.pendingRequests.remove q := by
  cases dec with
  | single u =>
    simp only [forwardRequest, recordMessageSent, Prog.call_bind, run_act, exec] at hfail ⊢
    cases hω : ω 1 with
    | true =>
      rw [hω] at hfail
      exact absurd (by simp) (hfail data u)
    | false =>
      simp [Prog.call, run_act, exec, PendingRequests.insert, PendingRequests.remove,
        Table.remove_insert]
  | broadcast bs =>
    simp only [forwardRequest, Prog.call_bind, run_act, exec] at hfail ⊢
    rw [run_bind] at hfail ⊢
    have hloop : AllSendsFailed (run exec (broadcastLoop data bs 0) (fun n => ω (n + 1))
        { p with pendingRequests := p.pendingRequests.insert p.now q src true false }).acts :=
      fun data' dst hm => hfail data' dst (by simp [hm])
    obtain ⟨hv, hs⟩ := run_broadcastLoop_failed _ _ data bs 0 hloop
    rw [hv, hs]
    simp [Prog.call, run_act, exec, PendingRequests.insert, PendingRequests.remove,
      Table.remove_insert]
  | _ => cases hdec

lemma decides_of_sent {d : Datagram} {h : Header} (hd : d.header = some h)
    (hsmf : isSmfRequest h.msgType = true)
    (hsent : ∃ a ∈ (handled ω d p).acts, a.op.isSend = true) :
    (routeDecision p h.msgType h.seid).isFailure = false := by
  obtain ⟨⟨o, r⟩, ha, hsend⟩ := hsent
  by_contra hne
  rw [Bool.not_eq_false] at hne
  cases o with
  | sendTo data dst => exact handled_failure_sends p ω hd hsmf hne data dst r ha
  | _ => cases hsend

/-- After a request was handled none of whose sends succeeded, nothing is pending under its
sequence number, and the rest is. -/
theorem handled_pending_failed {d : Datagram} {h : Header} (hd : d.header = some h)
    (hreq : isRequest h.msgType = true) (hfail : AllSendsFailed (handled ω d p).acts)
    (hsent : ∃ a ∈ (handled ω d p).acts, a.op.isSend = true) :
    (handled ω d p).state.pendingRequests = p.pendingRequests.remove h.sequence := by
  obtain ⟨a, ha, hsend⟩ := hsent
  cases hupf : isUpfRequest h.msgType with
  | true =>
    rw [handled_upf p ω hd hupf] at hfail ha ⊢
    simp only at hfail ha ⊢
    cases htarget : reportTarget (p.received h.msgType) h.seid d.src with
    | none =>
      have hno := (run_handleUpfRequest_none _ h.seid d.src (fun n => ω (n + 2)) d.data h.sequence
        htarget).2
      simp only [List.mem_append, List.mem_cons, List.not_mem_nil, or_false] at ha
      rcases ha with (rfl | rfl) | ha
      · cases hsend
      · cases hsend
      · rw [hno a ha] at hsend
        cases hsend
    | some smf =>
      obtain ⟨hpend, _, _, hact⟩ := run_handleUpfRequest_some _ h.seid d.src
        (fun n => ω (n + 2)) d.data h.sequence htarget
      have hω : ω (2 + 2) = false := by
        by_contra hne
        rw [Bool.not_eq_false] at hne
        rw [hne] at hact
        exact hfail d.data smf (List.mem_append_right _ hact)
      rw [hpend]
      simp [hω, PendingRequests.insert, PendingRequests.remove, Table.remove_insert]
  | false =>
    have hsmf : isSmfRequest h.msgType = true := by simpa [isRequest, hupf] using hreq
    obtain ⟨x, k, hx, hunsent, hstate, hacts⟩ := handled_smf p ω hd hsmf
    rw [hacts] at hfail
    have hdec := decides_of_sent p ω hd hsmf ⟨a, ha, hsend⟩
    rw [hstate, run_forwardRequest_failed _ _ _ _ _ hdec hfail.of_append.of_append,
      hx.pendingRequests]

/-! ### What is not rolled back -/

/-- The request does more than put its own pending entry into a free slot: it changes the
session table or the session counters, or finds its sequence number in use. -/
def Disturbs (p : Proxy) (h : Header) : Prop :=
  p.pendingRequests.get h.sequence ≠ none ∨ h.msgType = .sessionEstablishmentRequest ∨
    h.msgType = .sessionDeletionRequest ∨
    isDefaultRequest h.msgType = true ∧ ∃ s, h.seid = some s ∧ p.sessionTable.lookup s = none

lemma remove_eq_self_iff {t : PendingRequests} {q : UInt32} : t.remove q = t ↔ t.get q = none := by
  constructor
  · intro h
    rw [← h]
    exact Table.get_remove_self t q
  · exact Table.remove_of_get_none t

/-- A request that is no session message of its own leaves the mapping alone. -/
lemma routedTable_of_not_disturbs {h : Header} (hnot : ¬Disturbs p h) :
    routedTable p h.msgType h.seid src = p.sessionTable := by
  simp only [Disturbs, not_or, not_and, not_exists] at hnot
  obtain ⟨_, hest, hdel, hdef⟩ := hnot
  cases hs : h.seid with
  | none => rfl
  | some s =>
    have hno : ¬(isDefaultRequest h.msgType = true ∧ p.sessionTable.lookup s = none) :=
      fun hboth => hdef hboth.1 s hs hboth.2
    simp [routedTable, hest, hdel, hno]

/-- A request whose sends all fail leaves no trace if and only if its sequence number was
free and it neither establishes nor deletes a session, nor opens one in the last arm. -/
theorem failure_atomic_iff {d : Datagram} {h : Header} (hd : d.header = some h)
    (hreq : isRequest h.msgType = true) (hfail : AllSendsFailed (handled ω d p).acts)
    (hsent : ∃ a ∈ (handled ω d p).acts, a.op.isSend = true) :
    Unchanged p (handled ω d p).state ↔ ¬Disturbs p h := by
  have hpend := handled_pending_failed p ω hd hreq hfail hsent
  obtain ⟨htable, hest, hdel⟩ := handled_sessions p ω hd
  constructor
  · rintro ⟨hmap, hpend', hest', hdel'⟩ hdist
    have hsmf : isUpfRequest h.msgType = false → isSmfRequest h.msgType = true := by
      intro hupf
      simpa [isRequest, hupf] using hreq
    rcases hdist with hget | ht | ht | ⟨hdef, s, hs, hlook⟩
    · exact hget (remove_eq_self_iff.mp (hpend.symm.trans hpend'))
    · -- an establishment that found a backend is counted
      have hdec := decides_of_sent p ω hd (hsmf (by rw [ht]; rfl)) hsent
      cases hc : chooseUpf p.upfPool p.sessionTable with
      | none => simp [routeDecision, ht, isBroadcastRequest, hc, RoutingDecision.isFailure] at hdec
      | some u =>
        rw [hest'] at hest
        simp [ht, hc] at hest
    · -- a deletion that found its entry is counted
      have hdec := decides_of_sent p ω hd (hsmf (by rw [ht]; rfl)) hsent
      cases hl : h.seid.bind p.sessionTable.lookup with
      | none =>
        cases hs : h.seid with
        | none => simp [routeDecision, ht, isBroadcastRequest, hs, RoutingDecision.isFailure] at hdec
        | some s =>
          rw [hs, Option.bind_some] at hl
          simp [routeDecision, ht, isBroadcastRequest, hs, hl, RoutingDecision.isFailure] at hdec
      | some u =>
        rw [hdel'] at hdel
        simp [ht, hl] at hdel
    · -- the last arm has inserted the SEID
      obtain ⟨hupf, hne⟩ := isDefaultRequest_ne hdef
      have hdec := decides_of_sent p ω hd (hsmf hupf) hsent
      cases hc : chooseUpf p.upfPool p.sessionTable with
      | none =>
        simp [routeDecision, hne, hs, hlook, hc, RoutingDecision.isFailure] at hdec
      | some u =>
        have hbefore : p.sessionTable.lookupFull s = none := by
          simpa [SessionTable.lookup_eq] using hlook
        have hafter := hmap s
        rw [htable, hbefore] at hafter
        simp [routedTable, hs, hdef, hlook, hc, SessionTable.lookupFull_insert] at hafter
  · intro hnot
    have htable' := routedTable_of_not_disturbs p d.src hnot
    simp only [Disturbs, not_or, not_not] at hnot
    obtain ⟨hget, hest', hdel', _⟩ := hnot
    constructor
    · rw [htable, htable']
      exact SessionTable.SameMapping.refl _
    · rw [hpend]
      exact remove_eq_self_iff.mpr hget
    · rw [hest, if_neg fun hc => hest' hc.1, UInt64.add_zero]
    · rw [hdel, if_neg fun hc => hdel' hc.1, UInt64.add_zero]

/-- A modification of session 7 that cannot be sent. -/
theorem failure_atomic_modification :
    Unchanged establishedByA.2.shared
      (handled (fun _ => false) (message .sessionModificationRequest (some 7) 2 smfA)
        establishedByA.2.shared).state := by
  have hsent : ⟨.sendTo [0x21] upfX, false⟩ ∈ (handled (fun _ => false)
      (message .sessionModificationRequest (some 7) 2 smfA) establishedByA.2.shared).acts := by
    decide +kernel
  have hfree : establishedByA.2.shared.pendingRequests.get 2 = none := by decide +kernel
  refine (failure_atomic_iff _ _ rfl rfl (run_allSendsFailed _ _) ⟨_, hsent, rfl⟩).mpr ?_
  simp [Disturbs, hfree, isDefaultRequest]

/-- An establishment that cannot be sent leaves a session behind. -/
theorem failure_atomic_fails :
    AllSendsFailed (handled (fun _ => false) (message .sessionEstablishmentRequest (some 7) 1 smfA)
      (Proxy.new [upfX] .roundRobin)).acts ∧
    ⟨.sendTo [0x21] upfX, false⟩ ∈ (handled (fun _ => false)
      (message .sessionEstablishmentRequest (some 7) 1 smfA) (Proxy.new [upfX] .roundRobin)).acts ∧
    ¬Unchanged (Proxy.new [upfX] .roundRobin) (handled (fun _ => false)
      (message .sessionEstablishmentRequest (some 7) 1 smfA) (Proxy.new [upfX] .roundRobin)).state := by
  refine ⟨run_allSendsFailed _ _, by decide +kernel, fun hsame => ?_⟩
  have hentry := hsame.sessionTable 7
  revert hentry
  decide +kernel

end PfcpProxy
