import PfcpProxy.Sequential
import PfcpProxy.Targets

/-!
# When a request is refused

Selection finds a backend whenever one is eligible, whatever the strategy. The refusals of
`route_message` are therefore decided by the header, the session table and the health of
the pool, and a refused request leaves nothing behind.
-/

namespace PfcpProxy

open AtomicTasks

/-! ### Selection is total and sound -/

/-- The health states selection accepts. -/
def UpfBackend.Eligible (b : UpfBackend) : Prop := b.health = .healthy ∨ b.health = .unknown

lemma mem_healthyBackends {pool : UpfPool} {b : UpfBackend} :
    b ∈ pool.healthyBackends ↔ b ∈ pool.backends ∧ b.Eligible := by
  unfold UpfPool.healthyBackends UpfBackend.Eligible
  rw [List.mem_filter]
  cases b.health <;> simp [HealthStatus.eligible]

lemma healthyBackends_ne_nil_iff {pool : UpfPool} :
    pool.healthyBackends ≠ [] ↔ ∃ b ∈ pool.backends, b.Eligible := by
  constructor
  · intro hne
    obtain ⟨b, hb⟩ := List.exists_mem_of_ne_nil _ hne
    exact ⟨b, mem_healthyBackends.mp hb⟩
  · rintro ⟨b, hb⟩
    exact List.ne_nil_of_mem (mem_healthyBackends.mpr hb)

lemma countByUpf_le_count (t : SessionTable) (u : SocketAddr) : t.countByUpf u ≤ t.count :=
  Finset.card_filter_le _ _

lemma leastSessions_mem {t : SessionTable} {bs : List UpfBackend} {n : ℕ}
    {sel : Option SocketAddr} {u : SocketAddr} (h : leastSessions t bs n sel = some u) :
    sel = some u ∨ ∃ b ∈ bs, b.addr = u := by
  induction bs generalizing n sel with
  | nil => exact .inl h
  | cons b bs ih =>
    unfold leastSessions at h
    split at h
    · rcases ih h with hb | ⟨b', hb', hu⟩
      · exact .inr ⟨b, by simp, Option.some.inj hb⟩
      · exact .inr ⟨b', List.mem_cons_of_mem _ hb', hu⟩
    · rcases ih h with hs | ⟨b', hb', hu⟩
      · exact .inl hs
      · exact .inr ⟨b', List.mem_cons_of_mem _ hb', hu⟩

lemma chooseUpf_mem {pool : UpfPool} {t : SessionTable} {u : SocketAddr}
    (h : chooseUpf pool t = some u) : ∃ b ∈ pool.healthyBackends, b.addr = u := by
  unfold chooseUpf at h
  split at h
  · cases h
  · split at h
    · exact pickRoundRobin_mem h
    · exact (leastSessions_mem h).resolve_left (by simp)
    · split at h
      · exact pickRoundRobin_mem h
      · exact weightedScan_mem h

/-- The session table leaves room for the count of one backend. Only the least-sessions
strategy compares with `usize::MAX`. -/
def Countable (pool : UpfPool) (t : SessionTable) : Prop :=
  pool.strategy = .leastSessions → t.count < usizeMax

/-- With room for the counts, a backend is chosen wherever one is eligible. -/
lemma chooseUpf_isSome_iff_eligible {pool : UpfPool} {t : SessionTable} (ht : Countable pool t) :
    (chooseUpf pool t).isSome ↔ ∃ b ∈ pool.backends, b.Eligible := by
  rw [chooseUpf_isSome_iff, ← healthyBackends_ne_nil_iff]
  unfold Selectable
  cases hs : pool.strategy with
  | roundRobin => rfl
  | weighted => rfl
  | leastSessions =>
    constructor
    · rintro ⟨b, hb, _⟩
      exact List.ne_nil_of_mem hb
    · intro hne
      obtain ⟨b, hb⟩ := List.exists_mem_of_ne_nil _ hne
      exact ⟨b, hb, (countByUpf_le_count t b.addr).trans_lt (ht hs)⟩

/-- For every pool, index and session table: selection returns a backend exactly if one is
healthy or unknown, and then the address of such a one. The scan of the weighted strategy
never ends without a backend. -/
theorem selectUpf_total_sound (ω : ℕ → Bool) (p : Proxy)
    (hp : p.sessionTable.count < usizeMax) :
    ((run exec selectUpf ω p).value.isSome ↔ ∃ b ∈ p.upfPool.backends, b.Eligible) ∧
    (∀ u, (run exec selectUpf ω p).value = some u →
      ∃ b ∈ p.upfPool.backends, b.Eligible ∧ b.addr = u) ∧
    (totalWeight p.upfPool.healthyBackends ≠ 0 →
      (pickWeighted p.upfPool.healthyBackends p.upfPool.nextIndex).isSome) := by
  have hv : (run exec selectUpf ω p).value = chooseUpf p.upfPool p.sessionTable :=
    (run_selectUpf ω p).1
  refine ⟨?_, ?_, fun hw => pickWeighted_isSome hw _⟩
  · rw [hv]
    exact chooseUpf_isSome_iff_eligible fun _ => hp
  · intro u hu
    rw [hv] at hu
    obtain ⟨b, hb, rfl⟩ := chooseUpf_mem hu
    obtain ⟨hmem, hel⟩ := mem_healthyBackends.mp hb
    exact ⟨b, hmem, hel, rfl⟩

/-- Backends whose weights add up to 2 modulo 2^32, one of them degraded. -/
def wrappingPool : UpfPool :=
  ⟨[⟨.v4 1 8805, .healthy, 4294967295⟩, ⟨.v4 2 8805, .unknown, 3⟩, ⟨.v4 3 8805, .degraded, 7⟩],
    5, .weighted, 64⟩

theorem selectUpf_total_sound_wrapping :
    (run exec selectUpf (fun _ => true)
      { Proxy.new [] .weighted with upfPool := wrappingPool }).value.isSome :=
  (selectUpf_total_sound (fun _ => true) { Proxy.new [] .weighted with upfPool := wrappingPool }
    (by decide)).1.mpr ⟨⟨.v4 1 8805, .healthy, 4294967295⟩, by simp [wrappingPool], .inl rfl⟩

/-! ### The refusals of routing -/

/-- When each refusal is decided for a request of type `t` in the state `p`. -/
structure RefusesExactly (p : Proxy) (t : MsgType) (seid : Option UInt64)
    (dec : RoutingDecision) : Prop where
  noSeid : dec = .noSeid ↔
    (t = .sessionModificationRequest ∨ t = .sessionDeletionRequest) ∧ seid = none
  sessionNotFound : dec = .sessionNotFound ↔
    (t = .sessionModificationRequest ∨ t = .sessionDeletionRequest) ∧
      ∃ s, seid = some s ∧ p.sessionTable.lookup s = none
  noBackend : dec = .noBackend ↔ (¬∃ b ∈ p.upfPool.backends, b.Eligible) ∧
    (t = .sessionEstablishmentRequest ∨
      isDefaultRequest t = true ∧ ∀ s, seid = some s → p.sessionTable.lookup s = none)
  toClient : dec ≠ .responseToClient
  otherwise : dec.isRefusal = false → (∃ u, dec = .single u) ∨ ∃ us, dec = .broadcast us

lemma chooseUpf_eq_none_iff {pool : UpfPool} {t : SessionTable} (ht : Countable pool t) :
    chooseUpf pool t = none ↔ ¬∃ b ∈ pool.backends, b.Eligible := by
  rw [← chooseUpf_isSome_iff_eligible ht, Option.not_isSome_iff_eq_none]

lemma routeDecision_refuses_affinity (p : Proxy) {t : MsgType} (seid : Option UInt64)
    (ht : t = .sessionModificationRequest ∨ t = .sessionDeletionRequest) :
    RefusesExactly p t seid (routeDecision p t seid) := by
  have hne : t ≠ .sessionEstablishmentRequest ∧ isBroadcastRequest t = false ∧
      isDefaultRequest t = false := by
    rcases ht with rfl | rfl <;> simp [isBroadcastRequest, isDefaultRequest]
  cases seid with
  | none => constructor <;> simp [routeDecision, hne, ht, RoutingDecision.isRefusal]
  | some s =>
    cases hl : p.sessionTable.lookup s with
    | none => constructor <;> simp [routeDecision, hne, ht, hl, RoutingDecision.isRefusal]
    | some u => constructor <;> simp [routeDecision, hne, ht, hl]

lemma routeDecision_refuses (p : Proxy) (hp : Countable p.upfPool p.sessionTable) {t : MsgType}
    (seid : Option UInt64) (ht : isSmfRequest t = true) :
    RefusesExactly p t seid (routeDecision p t seid) := by
  have hnone := chooseUpf_eq_none_iff hp
  rcases (isSmfRequest_iff t).mp ht with hb | rfl | rfl | rfl | hdef
  · have hne : t ≠ .sessionEstablishmentRequest ∧ t ≠ .sessionModificationRequest ∧
        t ≠ .sessionDeletionRequest ∧ isDefaultRequest t = false := by
      cases t <;> simp_all [isBroadcastRequest, isDefaultRequest]
    constructor <;> simp [routeDecision, hb, hne]
  · cases hc : chooseUpf p.upfPool p.sessionTable with
    | none => constructor <;> simp [routeDecision, isBroadcastRequest, hc, hnone.mp hc,
        RoutingDecision.isRefusal]
    | some u =>
      have hel : ∃ b ∈ p.upfPool.backends, b.Eligible :=
        (chooseUpf_isSome_iff_eligible hp).mp (by simp [hc])
      constructor <;> simp [routeDecision, isBroadcastRequest, hc, hel]
  · exact routeDecision_refuses_affinity p seid (.inl rfl)
  · exact routeDecision_refuses_affinity p seid (.inr rfl)
  · obtain ⟨_, hb, he, hm, hdel⟩ := isDefaultRequest_ne hdef
    have hlookup : seid.bind p.sessionTable.lookup = none ↔
        ∀ s, seid = some s → p.sessionTable.lookup s = none := Option.bind_eq_none_iff
    cases hl : seid.bind p.sessionTable.lookup with
    | some u =>
      have hmapped : ¬∀ s, seid = some s → p.sessionTable.lookup s = none := by
        rw [← hlookup, hl]
        simp
      constructor <;> simp [routeDecision, hb, he, hm, hdel, hl, hmapped]
    | none =>
      cases hc : chooseUpf p.upfPool p.sessionTable with
      | none =>
        have hfree := eq_true (hlookup.mp hl)
        constructor <;> simp [routeDecision, hb, he, hm, hdel, hl, hc, hnone.mp hc, hdef, hfree,
          RoutingDecision.isRefusal]
      | some u =>
        have hel : ∃ b ∈ p.upfPool.backends, b.Eligible :=
          (chooseUpf_isSome_iff_eligible hp).mp (by simp [hc])
        constructor <;> simp [routeDecision, hb, he, hm, hdel, hl, hc, hel]

/-! ### A refused request leaves nothing behind -/

/-- Operations that only read. -/
def Op.isRead : Op → Bool
  | .sessionLookup _ | .sessionCountByUpf _ | .poolStrategy | .poolHealthyBackends => true
  | _ => false

lemma exec_of_isRead {o : Op} (ho : o.isRead = true) (w : Bool) (p : Proxy) : (exec o w p).2 = p := by
  cases o <;> first | rfl | cases ho

/-- Nothing but reads was performed. -/
def ReadOnly (l : Acts) : Prop := ∀ a ∈ l, a.op.isRead = true

lemma ReadOnly.snoc {l : Acts} (hl : ReadOnly l) {o : Op} (ho : o.isRead = true) (r : o.Res) :
    ReadOnly (l ++ [⟨o, r⟩]) := by
  intro a ha
  rw [List.mem_append, List.mem_singleton] at ha
  rcases ha with ha | rfl
  · exact hl a ha
  · exact ho

variable {l : Acts}

/-- Where no backend is selected, nothing was written. -/
abbrev WritesFor (r : Option SocketAddr) (l : Acts) : Prop := r = none → ReadOnly l

lemma selectRoundRobin_reads (hl : ReadOnly l) :
    Guarded (fun _ _ => True) WritesFor selectRoundRobin l := by
  simp only [selectRoundRobin, Prog.call_bind, guarded_act, true_and]
  intro healthy
  split
  · exact fun _ => hl.snoc rfl _
  · rename_i hne
    refine ⟨trivial, fun idx hnone => ?_⟩
    have hsome := pickRoundRobin_isSome (mt List.isEmpty_iff.mpr hne) idx
    simp [hnone] at hsome

lemma leastSessionsLoop_reads (bs : List UpfBackend) (n : ℕ) (sel : Option SocketAddr)
    (hl : ReadOnly l) : Guarded (fun _ _ => True) WritesFor (leastSessionsLoop bs n sel) l := by
  induction bs generalizing n sel l with
  | nil => exact fun _ => hl
  | cons b bs ih =>
    simp only [leastSessionsLoop, Prog.call_bind, guarded_act, true_and]
    intro count
    split
    · exact ih _ _ (hl.snoc rfl _)
    · exact ih _ _ (hl.snoc rfl _)

lemma selectUpf_reads (hl : ReadOnly l) :
    Guarded (fun _ _ => True) WritesFor selectUpf l := by
  simp only [selectUpf, Prog.call_bind, guarded_act, true_and]
  intro strategy
  have hl' := hl.snoc (o := .poolStrategy) rfl strategy
  cases strategy with
  | roundRobin => exact selectRoundRobin_reads hl'
  | leastSessions =>
    simp only [selectLeastSessions, Prog.call_bind, guarded_act, true_and]
    intro healthy
    split
    · exact fun _ => hl'.snoc rfl _
    · exact leastSessionsLoop_reads _ _ _ (hl'.snoc rfl _)
  | weighted =>
    simp only [selectWeighted, Prog.call_bind, guarded_act, true_and]
    intro healthy
    split
    · exact fun _ => hl'.snoc rfl _
    · split
      · exact selectRoundRobin_reads (hl'.snoc rfl _)
      · rename_i hw
        -- the snapshot has weight, so the scan finds a backend in it
        refine ⟨trivial, fun idx hnone => ?_⟩
        have hsome := pickWeighted_isSome hw idx
        simp [hnone] at hsome

/-- Whatever is interleaved with it, routing that refuses has only read. -/
abbrev RefusedReads (dec : RoutingDecision) (l : Acts) : Prop :=
  dec.isRefusal = true → ReadOnly l

lemma routeEstablishment_reads (seid : Option UInt64) (a : SocketAddr) (hl : ReadOnly l) :
    Guarded (fun _ _ => True) RefusedReads (routeEstablishment seid a) l := by
  unfold routeEstablishment
  rw [guarded_bind]
  refine (selectUpf_reads hl).mono (fun _ _ h => h) fun r l' hr => ?_
  cases r with
  | none => exact fun _ => hr rfl
  | some u =>
    cases seid <;> simp [recordRoutingDecision, recordSessionEstablished, RoutingDecision.isRefusal]

lemma routeAffinity_reads (t : MsgType) (seid : Option UInt64) (hl : ReadOnly l) :
    Guarded (fun _ _ => True) RefusedReads (routeAffinity t seid) l := by
  cases seid with
  | none => exact fun _ => hl
  | some s =>
    simp only [routeAffinity, Prog.call_bind, guarded_act, true_and]
    intro r
    cases r with
    | none => exact fun _ => hl.snoc rfl _
    | some u =>
      by_cases hdel : t = .sessionDeletionRequest
      · simp [hdel, recordRoutingDecision, recordSessionDeleted, RoutingDecision.isRefusal]
      · simp [hdel, recordRoutingDecision, RoutingDecision.isRefusal]

lemma routeDefault_reads (seid : Option UInt64) (a : SocketAddr) (hl : ReadOnly l) :
    Guarded (fun _ _ => True) RefusedReads (routeDefault seid a) l := by
  cases seid with
  | none =>
    simp only [routeDefault]
    rw [guarded_bind]
    refine (selectUpf_reads hl).mono (fun _ _ h => h) fun r l' hr => ?_
    cases r with
    | none => exact fun _ => hr rfl
    | some u => simp [recordRoutingDecision, RoutingDecision.isRefusal]
  | some s =>
    simp only [routeDefault, Prog.call_bind, guarded_act, true_and]
    intro r
    cases r with
    | some u => simp [recordRoutingDecision, RoutingDecision.isRefusal]
    | none =>
      simp only
      rw [guarded_bind]
      refine (selectUpf_reads (hl.snoc rfl _)).mono (fun _ _ h => h) fun r l' hr => ?_
      cases r with
      | none => exact fun _ => hr rfl
      | some u => simp [recordRoutingDecision, RoutingDecision.isRefusal]

lemma routeMessage_reads {t : MsgType} (ht : isSmfRequest t = true) (seid : Option UInt64)
    (a : SocketAddr) (hl : ReadOnly l) :
    Guarded (fun _ _ => True) RefusedReads (routeMessage t seid a) l := by
  rcases (isSmfRequest_iff t).mp ht with hb | rfl | rfl | rfl | hdef
  · rw [routeMessage_of_broadcast hb]
    simp [routeBroadcast, recordRoutingDecision, RoutingDecision.isRefusal]
  · exact routeEstablishment_reads seid a hl
  · exact routeAffinity_reads _ seid hl
  · exact routeAffinity_reads _ seid hl
  · rw [routeMessage_of_default hdef]
    exact routeDefault_reads seid a hl

lemma RoutingDecision.isFailure_of_isRefusal {dec : RoutingDecision}
    (h : dec.isRefusal = true) : dec.isFailure = true := by
  cases dec <;> first | rfl | cases h

/-- The exact refusals of routing, in every state that leaves room for the session counts.
Whatever tasks are interleaved with it, a request that is refused has only read; handled
alone, it leaves the state as it is but for the received counters, and sends nothing. -/
theorem refusals_exact (p : Proxy) (hp : Countable p.upfPool p.sessionTable) {d : Datagram}
    {h : Header} (hd : d.header = some h) (ht : isSmfRequest h.msgType = true) (ω : ℕ → Bool) :
    RefusesExactly p h.msgType h.seid
      (run exec (routeMessage h.msgType h.seid d.src) ω p).value ∧
    (∀ dec l, Path (routeMessage h.msgType h.seid d.src) l (.done dec) → dec.isRefusal = true →
      ReadOnly l) ∧
    ((run exec (routeMessage h.msgType h.seid d.src) ω p).value.isRefusal = true →
      (handled ω d p).state = p.received h.msgType ∧
      ∀ a ∈ (handled ω d p).acts, a.op.isSend = false) := by
  have hreads : ∀ dec l, Path (routeMessage h.msgType h.seid d.src) l (.done dec) →
      dec.isRefusal = true → ReadOnly l := by
    intro dec l hpath
    have hguard := (routeMessage_reads ht h.seid d.src (l := []) (by simp [ReadOnly])).path hpath
    simpa using hguard
  have hvalue : ∀ ω' p', (run exec (routeMessage h.msgType h.seid d.src) ω' p').value =
      routeDecision p' h.msgType h.seid :=
    fun ω' p' => (run_routeMessage p' h.seid d.src ω' ht).value
  refine ⟨?_, hreads, fun href => ⟨?_, ?_⟩⟩
  · rw [hvalue]
    exact routeDecision_refuses p hp h.seid ht
  · -- the handler routes in the state in which the request is counted as received
    set q := p.received h.msgType
    have hdec : (run exec (routeMessage h.msgType h.seid d.src) (fun n => ω (n + 2)) q).value =
        (run exec (routeMessage h.msgType h.seid d.src) ω p).value := by
      rw [hvalue, hvalue]
      rfl
    have hstate : (run exec (routeMessage h.msgType h.seid d.src) (fun n => ω (n + 2)) q).state =
        q :=
      run_of_acts exec (· = q) (fun o w p' ho hp' => (exec_of_isRead ho w p').trans hp') _ q
        (hreads _ _ (run_path exec _ _ q) (hdec ▸ href)) rfl
    rw [handled, handleMessage_smf hd ht, run_bind, run_recordMessageReceived]
    simp only [List.length_cons, List.length_nil]
    rw [run_bind, forwardRequest_failure d.src d.data h.sequence
      (RoutingDecision.isFailure_of_isRefusal (hdec ▸ href))]
    exact hstate
  · rw [hvalue] at href
    rintro ⟨o, r⟩ ha
    cases o with
    | sendTo data v =>
      exact absurd ha (handled_failure_sends p ω hd ht
        (RoutingDecision.isFailure_of_isRefusal href) data v r)
    | _ => rfl

/-- A deletion of a session that is not in the table, at a proxy with one backend. -/
theorem refusals_exact_unmapped :
    (handled (fun _ => true) ⟨[], .v4 9 8805, some ⟨.sessionDeletionRequest, some 7, 1⟩⟩
      (Proxy.new [.v4 1 8805] .leastSessions)).state =
      (Proxy.new [.v4 1 8805] .leastSessions).received .sessionDeletionRequest :=
  ((refusals_exact (Proxy.new [.v4 1 8805] .leastSessions) (fun _ => by decide)
    (d := ⟨[], .v4 9 8805, some ⟨.sessionDeletionRequest, some 7, 1⟩⟩) rfl rfl
    (fun _ => true)).2.2 (by decide)).1

end PfcpProxy
