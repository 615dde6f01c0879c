import PfcpProxy.Lib.Reduction
import PfcpProxy.OrderIndependence
import PfcpProxy.Association

/-!
# Interleavings of unrelated traffic

Handlers that select no backend and share neither a sequence number nor a SEID do not see each
other: whatever their interleaving, they do what they would do one at a time, in any order.
-/

namespace PfcpProxy

open AtomicTasks

/-- The messages that select no backend: the session-level ones, responses and broadcasts. -/
def SelectsNothing (t : MsgType) : Prop := IsUnrelatedKind t ∨ isBroadcastRequest t = true

section Footprints

variable {h : Header}

lemma handleBroadcast_footprint {d : Datagram} (hd : d.header = some h)
    (ht : isBroadcastRequest h.msgType = true) : Only (Footprint h) (handleMessage d) := by
  have hsmf : isSmfRequest h.msgType = true := (isSmfRequest_iff _).mpr (.inl ht)
  have hroute : Only (Footprint h) routeBroadcast :=
    ⟨trivial, fun _ => ⟨trivial, fun _ => trivial⟩⟩
  rw [handleMessage_smf hd hsmf, routeMessage_of_broadcast ht]
  exact only_bind (recordMessageReceived_footprint _) fun _ =>
    only_bind hroute fun dec => forwardRequest_footprint d.data d.src dec

lemma handleMessage_selectsNothing {d : Datagram} (hd : d.header = some h)
    (hkind : SelectsNothing h.msgType) : Only (Footprint h) (handleMessage d) := by
  rcases hkind with hkind | hkind
  · exact handleMessage_footprint hd hkind
  · exact handleBroadcast_footprint hd hkind

end Footprints

variable {p₀ : Proxy} {hist : History} {c : Config Op.Res Proxy Datagram}

/-- No message selects a backend, and no two share a sequence number, nor a SEID if neither is a
response. -/
structure UnrelatedTraffic (hist : History) : Prop where
  kinds : ∀ i d h, .recv i d ∈ hist → d.header = some h → SelectsNothing h.msgType
  distinct : ∀ i j d d', i ≠ j → .recv i d ∈ hist → .recv j d' ∈ hist → d.DistinctKeys d'

lemma UnrelatedTraffic.footprint (hu : UnrelatedTraffic hist) (hr : Run proxy p₀ hist c) {i : ℕ}
    {a : Act Op.Res} (ha : a ∈ acts i hist) :
    ∃ d h, .recv i d ∈ hist ∧ d.header = some h ∧ Footprint h a.op := by
  obtain ⟨x, pre, y, rfl⟩ := exists_split_of_mem_acts ha
  obtain ⟨d, hd, h, hh, _⟩ := conduct_of_act hr
  have hrecv : .recv i d ∈ x ++ .act i a pre :: y := List.mem_append_left _ hd
  obtain ⟨_, _, hpath⟩ := hr.handler_path hrecv
  exact ⟨d, h, hrecv, hh, hpath.only (handleMessage_selectsNothing hh (hu.kinds i d h hrecv hh)) a ha⟩

/-- Unrelated traffic does not notice its concurrency: however the handlers are interleaved, each
of them performs the operations, with the answers and sends, that it performs when the datagrams
are handled one at a time, in any order, and the state at the end is the same, timestamps
aside. -/
theorem unrelated_interleaving (hr : Run proxy p₀ hist c)
    (hdone : ∀ i < c.tasks.length, Finished c i) (htime : OnlyTicks hist)
    (hu : UnrelatedTraffic hist) {xs : List (ℕ × Datagram)} (hperm : xs.Perm (receptions hist)) :
    ∃ p, Serially exec p₀ (xs.map fun x => (handleMessage x.2, acts x.1 hist)) p ∧
      SameApartFromTime p c.shared := by
  apply hr.serially_in_any_order sameApartFromTime_equivalence ?_ ?_ ?_ ?_ hperm
  · intro t ht
    obtain ⟨i, hi, rfl⟩ := List.mem_iff_getElem.mp ht
    obtain ⟨d, hd⟩ := hdone i hi
    rw [List.getElem?_eq_getElem hi, Option.some.injEq] at hd
    rw [hd]
  · intro e pre he
    obtain ⟨δ, rfl⟩ := htime e pre he
    exact tick_sameApartFromTime δ pre
  · intro i a ha
    obtain ⟨_, _, _, _, hfoot⟩ := hu.footprint hr ha
    exact hfoot.respects
  · intro i j a b hij ha hb
    obtain ⟨d, h, hd, hh, hfoot⟩ := hu.footprint hr ha
    obtain ⟨d', h', hd', hh', hfoot'⟩ := hu.footprint hr hb
    exact hfoot.independent hfoot' (hu.distinct i j d d' hij hd hd' h h' hh hh')

/-- A broadcast, a modification of an unknown session and a response that nobody waits for, with
their handlers taking turns. -/
def takingTurns : History × Config Op.Res Proxy Datagram :=
  played [upfX, upfY] .roundRobin
    ([.recv (message .heartbeatRequest none 1 smfA),
      .recv (message .sessionModificationRequest (some 7) 2 smfB),
      .recv (message .sessionEstablishmentResponse (some 7) 3 upfX)] ++
    (List.replicate 12 [.step 0 true, .step 1 true, .step 2 true]).flatten)

/-- The same three handlers one at a time, the last one first. -/
theorem unrelated_interleaving_takingTurns : ∃ p,
    Serially exec (Proxy.new [upfX, upfY] .roundRobin)
      ((receptions takingTurns.1).reverse.map fun x => (handleMessage x.2, acts x.1 takingTurns.1)) p ∧
    SameApartFromTime p takingTurns.2.shared := by
  have hreceptions : receptions takingTurns.1 =
      [(0, message .heartbeatRequest none 1 smfA),
        (1, message .sessionModificationRequest (some 7) 2 smfB),
        (2, message .sessionEstablishmentResponse (some 7) 3 upfX)] := by decide +kernel
  have hlength : takingTurns.2.tasks.length = 3 := by decide +kernel
  have henv : takingTurns.1.all (fun e => !isEnv e) = true := by decide +kernel
  have hrecv (i : ℕ) (d : Datagram) (hd : .recv i d ∈ takingTurns.1) :
      (i, d) = (0, message .heartbeatRequest none 1 smfA) ∨
      (i, d) = (1, message .sessionModificationRequest (some 7) 2 smfB) ∨
      (i, d) = (2, message .sessionEstablishmentResponse (some 7) 3 upfX) := by
    rw [← mem_receptions_iff, hreceptions] at hd
    simpa using hd
  have hr : Run proxy (Proxy.new [upfX, upfY] .roundRobin) takingTurns.1 takingTurns.2 :=
    played_run _ _ _
  apply unrelated_interleaving hr ?_ ?_ ⟨?_, ?_⟩ (List.reverse_perm _)
  · intro i hi
    rw [hlength] at hi
    obtain rfl | rfl | rfl : i = 0 ∨ i = 1 ∨ i = 2 := by omega
    · exact ⟨_, rfl⟩
    · exact ⟨_, rfl⟩
    · exact ⟨_, rfl⟩
  · intro e pre he
    exact absurd he (not_env_of_all henv e pre)
  · intro i d h hd hh
    rcases hrecv i d hd with heq | heq | heq
    · cases heq
      cases hh
      exact .inr rfl
    · cases heq
      cases hh
      exact .inl (.inl rfl)
    · cases heq
      cases hh
      exact .inl (.inr (.inr (.inr rfl)))
  · intro i j d d' hij hd hd' h h' hh hh'
    rcases hrecv i d hd with heq | heq | heq <;> rcases hrecv j d' hd' with heq' | heq' | heq' <;>
      cases heq <;> cases heq' <;> cases hh <;> cases hh' <;>
      first
      | exact absurd rfl hij
      | exact ⟨by decide, by simp [isRequest, isSmfRequest, isUpfRequest]⟩

end PfcpProxy
