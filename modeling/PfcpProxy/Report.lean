import PfcpProxy.Conservation
import PfcpProxy.Targets

/-!
# The statistics report

`create_snapshot` puts totals of the session table and of a global counter next to one row
for each backend in the pool. The rows add up to the totals except for what is recorded for
addresses that are not in the pool.
-/

namespace PfcpProxy

open AtomicTasks

/-- One row of the report. Addresses and health states are kept as values; the source prints
them. -/
structure UpfStatSnapshot where
  address : SocketAddr
  messagesSent : UInt64
  activeSessions : ℕ
  health : HealthStatus
  deriving DecidableEq, Repr

/-- The report, without the time it was made. The source prints the message types. -/
structure StatisticsSnapshot where
  totalMessagesReceived : UInt64
  totalMessagesSent : UInt64
  totalResponsesForwarded : UInt64
  responsesDropped : UInt64
  activeSessions : ℕ
  sessionsEstablished : UInt64
  sessionsDeleted : UInt64
  routedBySeid : UInt64
  routedByLoadBalance : UInt64
  broadcasts : UInt64
  messageTypes : Table MsgType UInt64
  upfStats : List UpfStatSnapshot

/-- The row of one backend. -/
def Statistics.upfStat (s : Statistics) (sessionTable : SessionTable) (backend : UpfBackend) :
    UpfStatSnapshot where
  address := backend.addr
  messagesSent := (s.upfMessageCounts.get backend.addr).getD 0
  activeSessions := sessionTable.countByUpf backend.addr
  health := backend.health

/-- A snapshot of the statistics. -/
def Statistics.createSnapshot (s : Statistics) (sessionTable : SessionTable) (upfPool : UpfPool) :
    StatisticsSnapshot where
  totalMessagesReceived := s.totalMessagesReceived
  totalMessagesSent := s.totalMessagesSent
  totalResponsesForwarded := s.totalResponsesForwarded
  responsesDropped := s.responsesDropped
  activeSessions := sessionTable.count
  sessionsEstablished := s.sessionsEstablished
  sessionsDeleted := s.sessionsDeleted
  routedBySeid := s.routedBySeid
  routedByLoadBalance := s.routedByLoadBalance
  broadcasts := s.broadcasts
  messageTypes := s.msgTypeCounts
  upfStats := upfPool.backends.map (s.upfStat sessionTable)

/-- The report of a configuration in which no handler interferes. -/
def Proxy.report (p : Proxy) : StatisticsSnapshot :=
  p.stats.createSnapshot p.sessionTable p.upfPool

namespace StatisticsSnapshot

/-- The active sessions of all rows. -/
def rowSessions (snap : StatisticsSnapshot) : ℕ := (snap.upfStats.map (·.activeSessions)).sum

/-- The messages sent of all rows. -/
def rowMessages (snap : StatisticsSnapshot) : ℕ :=
  (snap.upfStats.map (·.messagesSent.toNat)).sum

end StatisticsSnapshot

/-- The sessions recorded for addresses that are not in the pool. -/
def Proxy.strandedSessions (p : Proxy) : ℕ :=
  p.sessionTable.countIf (fun info => info.upfAddr ∉ p.upfPool.addrs)

/-- The messages counted for addresses that are not in the pool. -/
def Proxy.strandedMessages (p : Proxy) : ℕ :=
  p.stats.upfMessageCounts.totalOutside UInt64.toNat p.upfPool.addrs

lemma rowSessions_report (p : Proxy) :
    p.report.rowSessions = (p.upfPool.addrs.map (fun u => p.sessionTable.countByUpf u)).sum := by
  simp [StatisticsSnapshot.rowSessions, Proxy.report, Statistics.createSnapshot,
    Statistics.upfStat, UpfPool.addrs, Function.comp_def]

lemma rowMessages_report (p : Proxy) :
    p.report.rowMessages = (p.upfPool.addrs.map (fun u =>
      ((p.stats.upfMessageCounts.get u).map UInt64.toNat).getD 0)).sum := by
  have hrow (u : SocketAddr) : ((p.stats.upfMessageCounts.get u).getD 0).toNat =
      ((p.stats.upfMessageCounts.get u).map UInt64.toNat).getD 0 := by
    cases p.stats.upfMessageCounts.get u <;> rfl
  simp [StatisticsSnapshot.rowMessages, Proxy.report, Statistics.createSnapshot,
    Statistics.upfStat, UpfPool.addrs, Function.comp_def, hrow]

/-- With distinct addresses the rows and the stranded sessions are all sessions. -/
lemma activeSessions_eq (p : Proxy) (hnodup : p.upfPool.addrs.Nodup) :
    p.report.activeSessions = p.report.rowSessions + p.strandedSessions := by
  rw [rowSessions_report]
  exact (Table.sum_countIf_add p.sessionTable (·.upfAddr) hnodup).symm

section Runs

variable {p₀ : Proxy} {hist : History} {c : Config Op.Res Proxy Datagram}

/-- With distinct addresses the rows and the stranded messages are all messages, in the
arithmetic of the counters. -/
lemma totalMessagesSent_eq (hstats : p₀.stats = Statistics.new) (hr : Run proxy p₀ hist c)
    (hquiet : Quiescent c) (hnodup : c.shared.upfPool.addrs.Nodup) :
    c.shared.report.totalMessagesSent.toNat =
      (c.shared.report.rowMessages + c.shared.strandedMessages) % UInt64.size := by
  have hcounts : p₀.stats.upfMessageCounts = Table.empty := by rw [hstats]; rfl
  obtain ⟨_, hmod⟩ := total_tally (fun p => p.stats.upfMessageCounts) Op.upfKey
    exec_upfMessageCounts (fun e p => by rw [envStep_stats]) hcounts hr
  have hsent := hquiet.tally_eq_tally hr fun d l hp => sent_counted hp
  have hread : c.shared.stats.totalMessagesSent =
      UInt64.ofNat (tally (Op.bumps .totalMessagesSent) hist) :=
    read_eq_tally hstats hr .totalMessagesSent
  rw [rowMessages_report, Proxy.strandedMessages,
    ← Table.total_eq_sum_add c.shared.stats.upfMessageCounts UInt64.toNat hnodup, hmod, ← hsent]
  show c.shared.stats.totalMessagesSent.toNat = _
  rw [hread]
  exact UInt64.toNat_ofNat'

lemma mem_afterCalls {calls : List PoolCall} (hno : ∀ a, .removeBackend a ∉ calls) {p : UpfPool}
    {u : SocketAddr} (hu : u ∈ p.addrs) : u ∈ (p.afterCalls calls).addrs := by
  induction calls generalizing p with
  | nil => exact hu
  | cons call calls ih =>
    apply ih fun a ha => hno a (List.mem_cons_of_mem _ ha)
    cases call with
    | addBackend a =>
      rw [PoolCall.apply, UpfPool.addrs_addBackend]
      split
      · exact List.mem_append_left _ hu
      · exact hu
    | removeBackend a => exact absurd (List.mem_cons_self ..) (hno a)
    | updateHealth a st => rwa [PoolCall.apply, UpfPool.addrs_updateHealth]

/-- The history removes no backend. -/
def NoRemoval (hist : History) : Prop := ∀ a pre, .env (.removeBackend a) pre ∉ hist

lemma NoRemoval.poolWithin (hno : NoRemoval hist) (hr : Run proxy p₀ hist c) :
    PoolWithin p₀ hist {u | u ∈ c.shared.upfPool.addrs} := by
  rintro h₁ h₂ rfl u hu
  rw [Set.mem_ofPred_eq, run_addrs hr, pooled, poolCalls, List.filterMap_append,
    UpfPool.afterCalls, List.foldl_append]
  refine mem_afterCalls (fun a ha => ?_) hu
  obtain ⟨e, he, hcall⟩ := List.mem_filterMap.mp ha
  cases e with
  | env e pre =>
    cases e <;> cases hcall
    exact hno a pre (List.mem_append_right _ he)
  | recv i d => cases hcall
  | act i b pre => cases hcall

lemma NoRemoval.stranded (hno : NoRemoval hist) (hsessions : p₀.sessionTable = Table.empty)
    (hcounts : p₀.stats.upfMessageCounts = Table.empty) (hr : Run proxy p₀ hist c) :
    c.shared.strandedSessions = 0 ∧ c.shared.strandedMessages = 0 := by
  have hA := hno.poolWithin hr
  constructor
  · apply Table.countIf_eq_zero
    intro s info hget
    have hmem := session_within hsessions hr hA (s := s) (u := info.upfAddr)
      (by simp [SessionTable.lookup, hget])
    simpa using hmem
  · apply Table.totalOutside_eq_zero
    intro u hget
    exact counted_within hsessions hcounts hr hA hget

end Runs

/-- The report of a quiescent proxy that was configured with distinct backends: the totals
are the sums over the rows and what is recorded for addresses that are no longer in the pool.
If no backend was removed, the rows add up to the totals. -/
theorem report_adds_up {backends : List SocketAddr} {strategy : LoadBalancingStrategy}
    {hist : History} {c : Config Op.Res Proxy Datagram} (hnodup : backends.Nodup)
    (hr : Run proxy (Proxy.new backends strategy) hist c) (hquiet : Quiescent c) :
    c.shared.report.activeSessions = c.shared.report.rowSessions + c.shared.strandedSessions ∧
    c.shared.report.totalMessagesSent.toNat =
      (c.shared.report.rowMessages + c.shared.strandedMessages) % UInt64.size ∧
    (NoRemoval hist →
      c.shared.report.activeSessions = c.shared.report.rowSessions ∧
      c.shared.report.totalMessagesSent.toNat = c.shared.report.rowMessages % UInt64.size) := by
  have hpool : c.shared.upfPool.addrs.Nodup := by
    rw [run_addrs hr]
    apply pooled_nodup
    simpa [Proxy.new, UpfPool.addrs_new] using hnodup
  have hsessions := activeSessions_eq c.shared hpool
  have hmessages := totalMessagesSent_eq rfl hr hquiet hpool
  refine ⟨hsessions, hmessages, fun hno => ?_⟩
  obtain ⟨hs, hm⟩ := hno.stranded rfl rfl hr
  rw [hs] at hsessions
  rw [hm] at hmessages
  exact ⟨hsessions, hmessages⟩

/-- A session is established on a backend, and the backend is removed. -/
def removedUnderSession : History × Config Op.Res Proxy Datagram :=
  played [upfX, upfY] .roundRobin
    (oneByOne 0 [message .sessionEstablishmentRequest (some 7) 1 smfA] ++
      [.env (.removeBackend upfX)])

lemma removedUnderSession_quiescent : Quiescent removedUnderSession.2 := by
  have htasks : removedUnderSession.2.tasks =
      [⟨message .sessionEstablishmentRequest (some 7) 1 smfA, .done ()⟩] := rfl
  simp [Quiescent, htasks]

/-- One session and one message are stranded. -/
theorem report_adds_up_removed :
    removedUnderSession.2.shared.report.activeSessions =
      removedUnderSession.2.shared.report.rowSessions + 1 ∧
    removedUnderSession.2.shared.report.totalMessagesSent.toNat =
      (removedUnderSession.2.shared.report.rowMessages + 1) % UInt64.size := by
  have hstranded : removedUnderSession.2.shared.strandedSessions = 1 ∧
      removedUnderSession.2.shared.strandedMessages = 1 := by decide +kernel
  have hr : Run proxy (Proxy.new [upfX, upfY] .roundRobin) removedUnderSession.1
      removedUnderSession.2 := played_run _ _ _
  have hreport := report_adds_up (by decide) hr removedUnderSession_quiescent
  rw [hstranded.1, hstranded.2] at hreport
  exact ⟨hreport.1, hreport.2.1⟩

/-- The rows do not add up to the totals once a backend with a session is removed. -/
theorem report_adds_up_fails :
    ¬∀ backends strategy hist c, Run proxy (Proxy.new backends strategy) hist c → Quiescent c →
      c.shared.report.activeSessions = c.shared.report.rowSessions ∧
      c.shared.report.totalMessagesSent.toNat = c.shared.report.rowMessages := by
  intro h
  obtain ⟨hsessions, _⟩ := h [upfX, upfY] .roundRobin _ _ (played_run _ _ _)
    removedUnderSession_quiescent
  revert hsessions
  decide +kernel

end PfcpProxy
