import PfcpProxy.MessageClasses
import Mathlib.Data.Set.Card

/-!
# Conservation of the statistics

The counters of a run add up task by task: sessions are established and deleted only by
routed requests, and once all handlers have returned every message received is in one class.
-/

namespace PfcpProxy

open AtomicTasks

/-! ### The sums of a run -/

section Sums

variable {p₀ : Proxy} {hist : History} {c : Config Op.Res Proxy Datagram}

/-- The number of tasks whose datagram and acts satisfy `P`. -/
noncomputable def tasksWith (hist : History) (P : Datagram → Acts → Prop) : ℕ :=
  {i | ∃ d, .recv i d ∈ hist ∧ P d (acts i hist)}.ncard

open Classical in
lemma tasksWith_eq_sum (P : Datagram → Acts → Prop) (hr : Run proxy p₀ hist c) :
    tasksWith hist P = ∑ i ∈ Finset.range c.tasks.length,
      if ∃ t, c.tasks[i]? = some t ∧ P t.msg (acts i hist) then 1 else 0 := by
  rw [← Finset.card_filter, tasksWith, ← Set.ncard_coe_finset]
  congr 1
  ext i
  simp only [Set.mem_ofPred_eq, Finset.coe_filter, Finset.mem_range]
  constructor
  · rintro ⟨d, hd, hP⟩
    obtain ⟨p, hp⟩ := hr.exists_task hd
    exact ⟨(List.getElem?_eq_some_iff.mp hp).1, _, hp, hP⟩
  · rintro ⟨_, t, ht, hP⟩
    exact ⟨t.msg, hr.recv_mem ht, hP⟩

/-- In a quiescent configuration every started task has returned. -/
def Quiescent (c : Config Op.Res Proxy Datagram) : Prop := ∀ t ∈ c.tasks, t.prog = .done ()

lemma Quiescent.path (hq : Quiescent c) (hr : Run proxy p₀ hist c) {i : ℕ}
    {t : Task Op.Res Datagram} (ht : c.tasks[i]? = some t) :
    Path (handleMessage t.msg) (acts i hist) (.done ()) := by
  have hdone := hq t (List.mem_of_getElem? ht)
  exact hdone ▸ hr.path ht

/-- One more in the count of a key is one more in the sum, up to overflow. -/
lemma total_countKey {K : Type} [DecidableEq K] (t : Table K UInt64) (k : K) :
    (Statistics.countKey t k).total UInt64.toNat ≤ t.total UInt64.toNat + 1 ∧
    (Statistics.countKey t k).total UInt64.toNat % UInt64.size =
      (t.total UInt64.toNat + 1) % UInt64.size := by
  unfold Statistics.countKey
  cases hk : t.get k with
  | none =>
    simp only
    rw [Table.total_insert_of_get_none t _ _ hk, show (1 : UInt64).toNat = 1 from rfl]
    exact ⟨Nat.le_refl _, rfl⟩
  | some n =>
    have hsum := Table.total_insert_of_get_some t UInt64.toNat (n + 1) hk
    have hlt : n.toNat < UInt64.size := n.toNat_lt_size
    have hnext : (n + 1).toNat = (n.toNat + 1) % UInt64.size := UInt64.toNat_add n 1
    simp only
    by_cases hover : n.toNat + 1 < UInt64.size
    · rw [Nat.mod_eq_of_lt hover] at hnext
      have heq : (t.insert k (n + 1)).total UInt64.toNat = t.total UInt64.toNat + 1 := by omega
      exact ⟨heq.le, by rw [heq]⟩
    · -- the count of the key wraps to zero
      have hfull : n.toNat + 1 = UInt64.size := by omega
      rw [hfull, Nat.mod_self] at hnext
      have heq : t.total UInt64.toNat + 1 =
          (t.insert k (n + 1)).total UInt64.toNat + UInt64.size := by omega
      rw [heq, Nat.add_mod_right]
      exact ⟨Nat.le_add_right _ _, rfl⟩

/-- A table of counts adds up to the number of operations that count in it, up to overflow. -/
theorem total_tally {K : Type} [DecidableEq K] (counts : Proxy → Table K UInt64)
    (key : Op → Option K)
    (hexec : ∀ o w p, counts (exec o w p).2 =
      (key o).elim (counts p) (Statistics.countKey (counts p)))
    (henv : ∀ e p, counts (envStep e p) = counts p) (h₀ : counts p₀ = Table.empty)
    (hr : Run proxy p₀ hist c) :
    (counts c.shared).total UInt64.toNat ≤ tally (fun o => (key o).isSome) hist ∧
    (counts c.shared).total UInt64.toNat % UInt64.size =
      tally (fun o => (key o).isSome) hist % UInt64.size := by
  induction hr with
  | nil =>
    rw [h₀]
    exact ⟨Nat.le_refl _, rfl⟩
  | @snoc hist c c' e hr hs ih =>
    rw [tally_append]
    cases hs with
    | recv d => exact ih
    | env e =>
      have hsame : counts (proxy.env e c.shared) = counts c.shared := henv e c.shared
      simp only [hsame]
      exact ih
    | act i d o f w hi =>
      rw [tally_act, show proxy.exec = exec from rfl, hexec]
      cases hk : key o with
      | none => exact ih
      | some k =>
        obtain ⟨hle, hmod⟩ := total_countKey (counts c.shared) k
        have hone : tally (fun o => (key o).isSome) ([] : History) = 0 := rfl
        simp only [Option.isSome_some, if_true, Option.elim_some, hone, Nat.zero_add]
        refine ⟨hle.trans (Nat.succ_le_succ ih.1), ?_⟩
        rw [hmod, Nat.add_mod, ih.2, ← Nat.add_mod]

/-- The number of messages received that parse. -/
noncomputable def parsed (hist : History) : ℕ := tasksWith hist (fun d _ => d.header.isSome)

lemma Decided.counts {L : List Counter} (hL : Decided L) :
    L.count .sessionsEstablished ≤ L.count .routedByLoadBalance ∧
      L.count .sessionsDeleted ≤ L.count .routedBySeid ∧
      L.count .routedByLoadBalance ≤ 1 ∧ L.count .routedBySeid ≤ 1 := by
  simp only [Decided, List.mem_cons, List.not_mem_nil, or_false] at hL
  rcases hL with rfl | rfl | rfl | rfl | rfl | rfl <;> decide

lemma decided_of_path {q : Handler Unit} (hp : Path (handleMessage d) l q) :
    Decided (decisions l) := by
  have hdec := (handleMessage_decided d).path hp
  rw [List.nil_append] at hdec
  cases q with
  | done a => exact hdec
  | act o k => exact hdec.1

lemma exists_task_of_mem_range {i : ℕ} (hi : i ∈ Finset.range c.tasks.length) :
    ∃ t, c.tasks[i]? = some t :=
  ⟨_, List.getElem?_eq_getElem (Finset.mem_range.mp hi)⟩

lemma tally_le_tally {P P' : Op → Bool} (hr : Run proxy p₀ hist c)
    (hle : ∀ d l q, Path (handleMessage d) l q → countOps P l ≤ countOps P' l) :
    tally P hist ≤ tally P' hist := by
  rw [hr.tally_eq_sum, hr.tally_eq_sum]
  apply Finset.sum_le_sum
  intro i hi
  obtain ⟨t, ht⟩ := exists_task_of_mem_range hi
  exact hle _ _ _ (hr.path ht)

/-- What no handler does twice is done at most once for each message that parses. -/
lemma tally_le_parsed {P : Op → Bool} (hr : Run proxy p₀ hist c)
    (hle : ∀ d l q, Path (handleMessage d) l q → countOps P l ≤ 1) :
    tally P hist ≤ parsed hist := by
  rw [hr.tally_eq_sum, parsed, tasksWith_eq_sum _ hr]
  apply Finset.sum_le_sum
  intro i hi
  obtain ⟨t, ht⟩ := exists_task_of_mem_range hi
  have hp := hr.path ht
  simp only [ht, Option.some.injEq, exists_eq_left']
  cases hd : t.msg.header with
  | none =>
    rw [acts_of_unparsed hd hp]
    rfl
  | some h => simpa using hle _ _ _ hp

lemma tally_decision_le (hr : Run proxy p₀ hist c) {k : Counter}
    (hk : (Op.fetchAdd k).decision = some k) (hone : ∀ L, Decided L → L.count k ≤ 1) :
    tally (Op.bumps k) hist ≤ parsed hist := by
  apply tally_le_parsed hr
  intro d l q hp
  rw [countOps_decision hk]
  exact hone _ (decided_of_path hp)

/-- In a quiescent configuration every message that parses is in one class. -/
lemma Quiescent.parsed_eq (hq : Quiescent c) (hr : Run proxy p₀ hist c) :
    parsed hist = tally (Op.bumps .routedBySeid) hist +
      tally (Op.bumps .routedByLoadBalance) hist + tally (Op.bumps .broadcasts) hist +
      tally (Op.bumps .totalResponsesForwarded) hist + tally (Op.bumps .responsesDropped) hist +
      tasksWith hist (fun d _ => UpfInitiated d) + tasksWith hist Refused +
      tasksWith hist ForwardFailed := by
  classical
  simp only [parsed, tasksWith_eq_sum _ hr, hr.tally_eq_sum, ← Finset.sum_add_distrib]
  apply Finset.sum_congr rfl
  intro i hi
  obtain ⟨t, ht⟩ := exists_task_of_mem_range hi
  have hp := hq.path hr ht
  simp only [ht, Option.some.injEq, exists_eq_left']
  cases hd : t.msg.header with
  | none =>
    have hno : ∀ h, t.msg.header ≠ some h := by simp [hd]
    rw [acts_of_unparsed hd hp]
    simp [UpfInitiated, Refused, ForwardFailed, Datagram.Answers, hno]
  | some h =>
    have hone := classes_eq_one hd hp
    simp only [classes, countOps] at hone
    simp only [Option.isSome_some, if_true]
    exact hone.symm

/-- What every handler does once is done once for each message that parses. -/
lemma Quiescent.tally_eq_parsed {P : Op → Bool} (hq : Quiescent c) (hr : Run proxy p₀ hist c)
    (hone : ∀ d h l, d.header = some h → Path (handleMessage d) l (.done ()) → countOps P l = 1) :
    tally P hist = parsed hist := by
  rw [hr.tally_eq_sum, parsed, tasksWith_eq_sum _ hr]
  apply Finset.sum_congr rfl
  intro i hi
  obtain ⟨t, ht⟩ := exists_task_of_mem_range hi
  have hp := hq.path hr ht
  simp only [ht, Option.some.injEq, exists_eq_left']
  cases hd : t.msg.header with
  | none =>
    rw [acts_of_unparsed hd hp]
    rfl
  | some h => simpa using hone _ _ _ hd hp

lemma Quiescent.tally_eq_tally {P P' : Op → Bool} (hq : Quiescent c) (hr : Run proxy p₀ hist c)
    (heq : ∀ d l, Path (handleMessage d) l (.done ()) → countOps P l = countOps P' l) :
    tally P hist = tally P' hist := by
  rw [hr.tally_eq_sum, hr.tally_eq_sum]
  apply Finset.sum_congr rfl
  intro i hi
  obtain ⟨t, ht⟩ := exists_task_of_mem_range hi
  exact heq _ _ (hq.path hr ht)

lemma exec_msgTypeCounts (o : Op) (w : Bool) (p : Proxy) :
    (exec o w p).2.stats.msgTypeCounts =
      o.typeKey.elim p.stats.msgTypeCounts (Statistics.countKey p.stats.msgTypeCounts) := by
  cases o with
  | fetchAdd c => cases c <;> rfl
  | _ => rfl

lemma exec_upfMessageCounts (o : Op) (w : Bool) (p : Proxy) :
    (exec o w p).2.stats.upfMessageCounts =
      o.upfKey.elim p.stats.upfMessageCounts (Statistics.countKey p.stats.upfMessageCounts) := by
  cases o with
  | fetchAdd c => cases c <;> rfl
  | _ => rfl

variable {backends : List SocketAddr} {strategy : LoadBalancingStrategy}

/-- The counters are conserved: sessions are established and deleted only by routed requests,
and in a quiescent configuration the tables of counts add up to the totals and every message
received is in one class. -/
theorem statistics_conserved (hr : Run proxy (Proxy.new backends strategy) hist c)
    (hrecv : parsed hist < 2 ^ 64) (hsent : tally (Op.bumps .totalMessagesSent) hist < 2 ^ 64) :
    (c.shared.stats.sessionsEstablished ≤ c.shared.stats.routedByLoadBalance ∧
      c.shared.stats.sessionsDeleted ≤ c.shared.stats.routedBySeid) ∧
    (Quiescent c →
      c.shared.stats.msgTypeCounts.total UInt64.toNat =
        c.shared.stats.totalMessagesReceived.toNat ∧
      c.shared.stats.upfMessageCounts.total UInt64.toNat =
        c.shared.stats.totalMessagesSent.toNat ∧
      c.shared.stats.totalMessagesReceived.toNat =
        c.shared.stats.routedBySeid.toNat + c.shared.stats.routedByLoadBalance.toNat +
          c.shared.stats.broadcasts.toNat + c.shared.stats.totalResponsesForwarded.toNat +
          c.shared.stats.responsesDropped.toNat + tasksWith hist (fun d _ => UpfInitiated d) +
          tasksWith hist Refused + tasksWith hist ForwardFailed) := by
  have hread (k : Counter) (hk : tally (Op.bumps k) hist < 2 ^ 64) :
      (c.shared.stats.read k).toNat = tally (Op.bumps k) hist := by
    rw [read_eq_tally rfl hr]
    exact UInt64.toNat_ofNat_of_lt' hk
  have hLB := tally_decision_le hr (k := .routedByLoadBalance) rfl fun L hL => hL.counts.2.2.1
  have hSeid := tally_decision_le hr (k := .routedBySeid) rfl fun L hL => hL.counts.2.2.2
  have hE : tally (Op.bumps .sessionsEstablished) hist ≤
      tally (Op.bumps .routedByLoadBalance) hist := by
    apply tally_le_tally hr
    intro d l q hp
    rw [countOps_decision rfl, countOps_decision rfl]
    exact (decided_of_path hp).counts.1
  have hD : tally (Op.bumps .sessionsDeleted) hist ≤ tally (Op.bumps .routedBySeid) hist := by
    apply tally_le_tally hr
    intro d l q hp
    rw [countOps_decision rfl, countOps_decision rfl]
    exact (decided_of_path hp).counts.2.1
  have hest := hread .sessionsEstablished (by omega)
  have hlb := hread .routedByLoadBalance (by omega)
  have hdel := hread .sessionsDeleted (by omega)
  have hseid := hread .routedBySeid (by omega)
  simp only [Statistics.read] at hest hlb hdel hseid
  refine ⟨⟨?_, ?_⟩, fun hq => ?_⟩
  · rw [UInt64.le_iff_toNat_le, hest, hlb]
    exact hE
  · rw [UInt64.le_iff_toNat_le, hdel, hseid]
    exact hD
  have hclasses := hq.parsed_eq hr
  have hrecvT := hq.tally_eq_parsed hr fun d h l hd hp => (received_once hd hp).1
  have htypeT := hq.tally_eq_parsed hr fun d h l hd hp => (received_once hd hp).2
  have hsentT := hq.tally_eq_tally hr fun d l hp => sent_counted hp
  obtain ⟨htypes, htypes'⟩ := total_tally (fun p => p.stats.msgTypeCounts) Op.typeKey
    exec_msgTypeCounts (fun e p => by rw [envStep_stats]) rfl hr
  obtain ⟨hupfs, hupfs'⟩ := total_tally (fun p => p.stats.upfMessageCounts) Op.upfKey
    exec_upfMessageCounts (fun e p => by rw [envStep_stats]) rfl hr
  rw [htypeT] at htypes htypes'
  rw [← hsentT] at hupfs hupfs'
  have hrecv' : parsed hist < UInt64.size := hrecv
  have hsent' : tally (Op.bumps .totalMessagesSent) hist < UInt64.size := hsent
  rw [Nat.mod_eq_of_lt (htypes.trans_lt hrecv'), Nat.mod_eq_of_lt hrecv'] at htypes'
  rw [Nat.mod_eq_of_lt (hupfs.trans_lt hsent'), Nat.mod_eq_of_lt hsent'] at hupfs'
  have hrecvC := hread .totalMessagesReceived (by omega)
  have hsentC := hread .totalMessagesSent hsent
  have hbroad := hread .broadcasts (by omega)
  have hfwd := hread .totalResponsesForwarded (by omega)
  have hdrop := hread .responsesDropped (by omega)
  simp only [Statistics.read] at hrecvC hsentC hbroad hfwd hdrop
  refine ⟨?_, ?_, ?_⟩
  · rw [htypes', hrecvC, hrecvT]
  · rw [hupfs', hsentC]
  · rw [hrecvC, hseid, hlb, hbroad, hfwd, hdrop, hrecvT, hclasses]

lemma parsed_le (hr : Run proxy p₀ hist c) : parsed hist ≤ c.tasks.length := by
  rw [parsed, tasksWith_eq_sum _ hr]
  calc _ ≤ ∑ _i ∈ Finset.range c.tasks.length, 1 := by
        apply Finset.sum_le_sum
        intro i _
        split <;> simp
    _ = c.tasks.length := by rw [← Finset.card_eq_sum_ones, Finset.card_range]

end Sums

/-- An establishment and its response are two messages in two classes. -/
theorem statistics_conserved_answered :
    answeredEstablishment.2.shared.stats.totalMessagesReceived.toNat =
      answeredEstablishment.2.shared.stats.routedBySeid.toNat +
        answeredEstablishment.2.shared.stats.routedByLoadBalance.toNat +
        answeredEstablishment.2.shared.stats.broadcasts.toNat +
        answeredEstablishment.2.shared.stats.totalResponsesForwarded.toNat +
        answeredEstablishment.2.shared.stats.responsesDropped.toNat +
        tasksWith answeredEstablishment.1 (fun d _ => UpfInitiated d) +
        tasksWith answeredEstablishment.1 Refused +
        tasksWith answeredEstablishment.1 ForwardFailed := by
  have hr := answeredEstablishment_run
  have htasks : answeredEstablishment.2.tasks =
      [⟨message .sessionEstablishmentRequest (some 7) 1 smfA, .done ()⟩,
        ⟨message .sessionEstablishmentResponse (some 7) 1 upfX, .done ()⟩] := rfl
  have hquiet : Quiescent answeredEstablishment.2 := by simp [Quiescent, htasks]
  have hparsed : parsed answeredEstablishment.1 < 2 ^ 64 :=
    (parsed_le hr).trans_lt (by simp [htasks])
  exact ((statistics_conserved hr hparsed (by decide +kernel)).2 hquiet).2.2

end PfcpProxy
