import PfcpProxy.Histories
import PfcpProxy.Sequential

/-!
# Retransmitted session requests

A session request that is handled a second time, with other traffic in between. Only
modifications are repeated safely: an establishment is load balanced and counted again, and
a deletion has removed the entry it would need.
-/

namespace PfcpProxy

open AtomicTasks

/-- Handling `d` in the state `p` sends it to `u`, and leaves the mapping of the session table
and the session counters as they are. -/
structure RetransmissionSafe (ω : ℕ → Bool) (d : Datagram) (u : SocketAddr) (p : Proxy) : Prop where
  sends : SendsTo d.data u (handled ω d p).acts
  sessionTable : p.sessionTable.SameMapping (handled ω d p).state.sessionTable
  established : (handled ω d p).state.stats.sessionsEstablished = p.stats.sessionsEstablished
  deleted : (handled ω d p).state.stats.sessionsDeleted = p.stats.sessionsDeleted

variable {p : Proxy} {ω ω' : ℕ → Bool} {d : Datagram} {s : UInt64} {q : UInt32} {u : SocketAddr}
  {h : History} {c : Config Op.Res Proxy Datagram}

lemma modification_safe (hd : d.header = some ⟨.sessionModificationRequest, some s, q⟩)
    (hlook : p.sessionTable.lookup s = some u) : RetransmissionSafe ω d u p := by
  obtain ⟨htable, hest, hdel⟩ := handled_sessions p ω hd
  have hdec : routeDecision p .sessionModificationRequest (some s) = .single u := by
    simp [routeDecision, isBroadcastRequest, hlook]
  constructor
  · exact handled_single_sends p ω hd rfl hdec
  · rw [htable]
    simp [routedTable, isDefaultRequest, SessionTable.SameMapping.refl]
  · simpa using hest
  · simpa using hdel

lemma establishment_not_safe (hd : d.header = some ⟨.sessionEstablishmentRequest, some s, q⟩) :
    ¬RetransmissionSafe ω d u p := by
  intro hsafe
  obtain ⟨_, hest, _⟩ := handled_sessions p ω hd
  cases hc : chooseUpf p.upfPool p.sessionTable with
  | none =>
    obtain ⟨ok, hsent⟩ := hsafe.sends.1
    refine handled_failure_sends p ω hd rfl ?_ _ _ _ hsent
    simp [routeDecision, isBroadcastRequest, hc, RoutingDecision.isFailure]
  | some v =>
    rw [hsafe.established] at hest
    simp [hc] at hest

lemma deletion_not_safe (hd : d.header = some ⟨.sessionDeletionRequest, some s, q⟩)
    (hlook : p.sessionTable.lookup s = none) : ¬RetransmissionSafe ω d u p := by
  intro hsafe
  obtain ⟨ok, hsent⟩ := hsafe.sends.1
  refine handled_failure_sends p ω hd rfl ?_ _ _ _ hsent
  simp [routeDecision, isBroadcastRequest, hlook, RoutingDecision.isFailure]

/-- A session request that was forwarded is repeated safely if and only if it is a
modification, whatever other traffic comes in between. -/
theorem retransmission_safe_iff {t : MsgType} (hd : d.header = some ⟨t, some s, q⟩)
    (ht : t = .sessionEstablishmentRequest ∨ t = .sessionModificationRequest ∨
      t = .sessionDeletionRequest)
    (hfwd : ⟨.sendTo d.data u, true⟩ ∈ (handled ω d p).acts)
    (hr : Run proxy (handled ω d p).state h c) (hother : ∀ i d', .recv i d' ∈ h → ¬Carries d' s) :
    RetransmissionSafe ω' d u c.shared ↔ t = .sessionModificationRequest := by
  have hkept := lookupFull_of_others hr hother
  obtain ⟨htable, _, _⟩ := handled_sessions p ω hd
  rcases ht with rfl | rfl | rfl
  · simp [establishment_not_safe hd]
  · -- the entry the first handling used is still there
    simp only [iff_true]
    have hlook : p.sessionTable.lookup s = some u := by
      cases hl : p.sessionTable.lookup s with
      | none =>
        exfalso
        refine handled_failure_sends p ω hd rfl ?_ _ _ _ hfwd
        simp [routeDecision, isBroadcastRequest, hl, RoutingDecision.isFailure]
      | some v =>
        have hdec : routeDecision p .sessionModificationRequest (some s) = .single v := by
          simp [routeDecision, isBroadcastRequest, hl]
        rw [((handled_single_sends p ω hd rfl hdec).2 _ _ _ hfwd).2]
    apply modification_safe hd
    rw [SessionTable.lookup_eq, hkept, htable, ← SessionTable.lookup_eq]
    simpa [routedTable, isDefaultRequest] using hlook
  · -- the first handling removed the entry
    simp only [reduceCtorEq, iff_false]
    apply deletion_not_safe hd
    rw [SessionTable.lookup_eq, hkept, htable]
    by_cases hl : p.sessionTable.lookup s = none
    · simp [routedTable, isDefaultRequest, hl, ← SessionTable.lookup_eq]
    · simp [routedTable, isDefaultRequest, hl, SessionTable.lookupFull_remove]

/-- A modification of session 7, repeated at once. -/
theorem retransmission_safe_modification :
    RetransmissionSafe (fun _ => true) (message .sessionModificationRequest (some 7) 2 smfA) upfX
      (handled (fun _ => true) (message .sessionModificationRequest (some 7) 2 smfA)
        establishedByA.2.shared).state := by
  have hfwd : ⟨.sendTo [0x21] upfX, true⟩ ∈ (handled (fun _ => true)
      (message .sessionModificationRequest (some 7) 2 smfA) establishedByA.2.shared).acts := by
    decide +kernel
  exact (retransmission_safe_iff rfl (.inr (.inl rfl)) hfwd .nil (by simp)).mpr rfl

/-- The establishment of session 7, repeated at once: it goes to the second backend. -/
theorem retransmission_safe_fails :
    ⟨.sendTo [0x21] upfX, true⟩ ∈ (handled (fun _ => true)
      (message .sessionEstablishmentRequest (some 7) 1 smfA)
      (Proxy.new [upfX, upfY] .roundRobin)).acts ∧
    ¬RetransmissionSafe (fun _ => true) (message .sessionEstablishmentRequest (some 7) 1 smfA) upfX
      (handled (fun _ => true) (message .sessionEstablishmentRequest (some 7) 1 smfA)
        (Proxy.new [upfX, upfY] .roundRobin)).state := by
  refine ⟨by decide +kernel, fun hsafe => ?_⟩
  have hsent : ⟨.sendTo [0x21] upfY, true⟩ ∈ (handled (fun _ => true)
      (message .sessionEstablishmentRequest (some 7) 1 smfA)
      (handled (fun _ => true) (message .sessionEstablishmentRequest (some 7) 1 smfA)
        (Proxy.new [upfX, upfY] .roundRobin)).state).acts := by
    decide +kernel
  have htarget := (hsafe.sends.2 _ _ _ hsent).2
  revert htarget
  decide

end PfcpProxy
