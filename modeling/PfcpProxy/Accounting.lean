import PfcpProxy.Histories
import Mathlib.Algebra.Order.BigOperators.Group.Finset

/-!
# Session accounting

The counters of established and deleted sessions against the session table. Each handler
books its counter and its table entry in separate steps; over a whole run the books agree
with the table as long as every booking changes the table.
-/

namespace PfcpProxy

open AtomicTasks

/-- Operations on the books: the table and the two counters. -/
def Op.isBooking : Op → Bool
  | .sessionInsert _ _ _ | .sessionRemove _ => true
  | .fetchAdd c => c = .sessionsEstablished ∨ c = .sessionsDeleted
  | _ => false

/-- The bookings among the acts of a handler. -/
def ledger (l : Acts) : List Op := (l.map Act.op).filter Op.isBooking

@[simp] lemma ledger_append (l l' : Acts) : ledger (l ++ l') = ledger l ++ ledger l' := by
  simp [ledger]

@[simp] lemma ledger_nil : ledger [] = [] := rfl

@[simp] lemma ledger_cons (a : Act Op.Res) (l : Acts) :
    ledger (a :: l) = if a.op.isBooking then a.op :: ledger l else ledger l := by
  simp [ledger, List.filter_cons]

lemma ledger_of_not {l : Acts} (hl : ∀ a ∈ l, a.op.isBooking = false) : ledger l = [] := by
  simpa [ledger, List.filter_eq_nil_iff] using hl

lemma Selecting.ledger {l : Acts} (hl : Selecting l) : ledger l = [] := by
  apply ledger_of_not
  intro a ha
  have hsel := hl a ha
  cases hop : a.op <;> simp_all [Op.isSelection, Op.isBooking]

lemma exists_act_of_mem_ledger {l : Acts} {o : Op} (ho : o ∈ ledger l) : ∃ r, ⟨o, r⟩ ∈ l := by
  obtain ⟨a, ha, rfl⟩ := List.mem_map.mp (List.mem_filter.mp ho).1
  exact ⟨a.res, ha⟩

lemma countP_ledger {P : Op → Bool} (hP : ∀ o, P o = true → o.isBooking = true) (l : Acts) :
    l.countP (fun a => P a.op) = (ledger l).countP P := by
  rw [ledger, List.countP_filter, List.countP_map]
  apply List.countP_congr
  intro a _
  simpa using hP a.op

/-- What the handler of `d` has on its books when it returns. -/
def Booked (d : Datagram) (L : List Op) : Prop :=
  L = [] ∨ ∃ h, d.header = some h ∧
    (h.msgType = .sessionEstablishmentRequest ∧
        (h.seid = none ∧ L = [.fetchAdd .sessionsEstablished] ∨
          ∃ s u, h.seid = some s ∧
            L = [.fetchAdd .sessionsEstablished, .sessionInsert s u d.src]) ∨
      isDefaultRequest h.msgType = true ∧
        (∃ s u, h.seid = some s ∧ L = [.sessionInsert s u d.src]) ∨
      h.msgType = .sessionDeletionRequest ∧
        (∃ s, h.seid = some s ∧ L = [.fetchAdd .sessionsDeleted, .sessionRemove s]))

lemma guarded_offBooks {α : Type} {p : Handler α} (hp : Only (fun o => o.isBooking = false) p)
    {L : List Op} {l : Acts} (hl : ledger l = L) :
    Guarded (fun _ _ => True) (fun _ l' => ledger l' = L) p l := by
  apply guarded_of_only hp (fun l' => ledger l' = L) hl
  · intro l' o hl' ho
    exact ⟨trivial, fun r => by simp [hl', ho]⟩
  · exact fun _ _ hl' => hl'

lemma Op.not_isBooking_of_relay {o : Op} (ho : o.isRelay = true) : o.isBooking = false := by
  cases o with
  | fetchAdd c => cases c <;> first | rfl | cases ho
  | _ => first | rfl | cases ho

variable {d : Datagram} {h : Header}

lemma routeEstablishment_booked (hd : d.header = some h)
    (ht : h.msgType = .sessionEstablishmentRequest) {l : Acts} (hl : ledger l = []) :
    Guarded (fun _ _ => True) (fun _ l' => Booked d (ledger l'))
      (routeEstablishment h.seid d.src) l := by
  unfold routeEstablishment
  rw [guarded_bind]
  apply guarded_selectUpf (fun _ _ _ => trivial)
  intro r x hx
  cases r with
  | none => exact .inl (by simp [hl, hx.ledger])
  | some u =>
    cases hs : h.seid with
    | none =>
      refine ⟨trivial, fun _ => ⟨trivial, fun _ => .inr ⟨h, hd, .inl ⟨ht, .inl ⟨hs, ?_⟩⟩⟩⟩⟩
      simp [hl, hx.ledger, Op.isBooking]
    | some s =>
      refine ⟨trivial, fun _ => ⟨trivial, fun _ => ⟨trivial, fun _ => ?_⟩⟩⟩
      refine .inr ⟨h, hd, .inl ⟨ht, .inr ⟨s, u, hs, ?_⟩⟩⟩
      simp [hl, hx.ledger, Op.isBooking]

lemma routeAffinity_booked (hd : d.header = some h)
    (ht : h.msgType = .sessionModificationRequest ∨ h.msgType = .sessionDeletionRequest)
    {l : Acts} (hl : ledger l = []) :
    Guarded (fun _ _ => True) (fun _ l' => Booked d (ledger l'))
      (routeAffinity h.msgType h.seid) l := by
  unfold routeAffinity
  cases hs : h.seid with
  | none => exact .inl hl
  | some s =>
    simp only [Prog.call_bind, guarded_act, true_and]
    intro r
    cases r with
    | none => exact .inl (by simp [hl, Op.isBooking])
    | some u =>
      simp only [recordRoutingDecision, recordSessionDeleted, Bool.false_eq_true, if_false,
        if_true, Prog.call_bind, guarded_act, true_and]
      intro _
      rcases ht with ht | ht
      · simp only [ht, reduceCtorEq, if_false, Prog.pure_eq, guarded_done]
        exact .inl (by simp [hl, Op.isBooking])
      · simp only [ht, if_true, Prog.pure_eq, guarded_act, guarded_done, true_and]
        refine fun _ _ => .inr ⟨h, hd, .inr (.inr ⟨ht, s, hs, ?_⟩)⟩
        simp [hl, Op.isBooking]

lemma routeDefault_booked (hd : d.header = some h) (ht : isDefaultRequest h.msgType = true)
    {l : Acts} (hl : ledger l = []) :
    Guarded (fun _ _ => True) (fun _ l' => Booked d (ledger l'))
      (routeDefault h.seid d.src) l := by
  unfold routeDefault
  cases hs : h.seid with
  | none =>
    rw [guarded_bind]
    apply guarded_selectUpf (fun _ _ _ => trivial)
    intro r x hx
    cases r with
    | none => exact .inl (by simp [hl, hx.ledger])
    | some u => exact ⟨trivial, fun _ => .inl (by simp [hl, hx.ledger, Op.isBooking])⟩
  | some s =>
    simp only [Prog.call_bind, guarded_act, true_and]
    intro r
    cases r with
    | some u => exact ⟨trivial, fun _ => .inl (by simp [hl, Op.isBooking])⟩
    | none =>
      rw [guarded_bind]
      apply guarded_selectUpf (fun _ _ _ => trivial)
      intro r x hx
      cases r with
      | none => exact .inl (by simp [hl, hx.ledger, Op.isBooking])
      | some u =>
        refine ⟨trivial, fun _ => ⟨trivial, fun _ => ?_⟩⟩
        refine .inr ⟨h, hd, .inr (.inl ⟨ht, s, u, hs, ?_⟩)⟩
        simp [hl, hx.ledger, Op.isBooking]

lemma routeMessage_booked (hd : d.header = some h) (ht : isSmfRequest h.msgType = true)
    {l : Acts} (hl : ledger l = []) :
    Guarded (fun _ _ => True) (fun _ l' => Booked d (ledger l'))
      (routeMessage h.msgType h.seid d.src) l := by
  rcases (isSmfRequest_iff _).mp ht with hb | he | hm | hdel | hdef
  · rw [routeMessage_of_broadcast hb]
    refine ⟨trivial, fun _ => ⟨trivial, fun _ => .inl ?_⟩⟩
    simp [hl, Op.isBooking]
  · have hr : routeMessage h.msgType h.seid d.src = routeEstablishment h.seid d.src := by
      rw [he, routeMessage]
    rw [hr]
    exact routeEstablishment_booked hd he hl
  · have hr : routeMessage h.msgType h.seid d.src = routeAffinity h.msgType h.seid := by
      rw [hm, routeMessage]
    rw [hr]
    exact routeAffinity_booked hd (.inl hm) hl
  · have hr : routeMessage h.msgType h.seid d.src = routeAffinity h.msgType h.seid := by
      rw [hdel, routeMessage]
    rw [hr]
    exact routeAffinity_booked hd (.inr hdel) hl
  · rw [routeMessage_of_default hdef]
    exact routeDefault_booked hd hdef hl

/-- Every handler leaves its books in order. -/
theorem handleMessage_booked (d : Datagram) :
    Guarded (fun _ _ => True) (fun _ l => Booked d (ledger l)) (handleMessage d) [] := by
  unfold handleMessage
  cases hd : d.header with
  | none => exact .inl rfl
  | some h =>
    simp only [recordMessageReceived, Prog.call_bind, Prog.act_bind, guarded_act, true_and]
    intro _ _
    have hl : ledger ([] ++ [⟨.fetchAdd .totalMessagesReceived, ()⟩] ++
        [⟨.countMsgType h.msgType, ()⟩]) = [] := by simp [Op.isBooking]
    cases hu : isUpfRequest h.msgType with
    | true =>
      simp only [if_true]
      have hoff : Only (fun o => o.isBooking = false)
          (handleUpfRequest d.data d.src h.seid h.sequence) := by
        apply (handleUpfRequest_only d.data d.src h.seid h.sequence).mono
        rintro o (ho | ⟨s, rfl⟩)
        · exact Op.not_isBooking_of_relay ho
        · rfl
      exact (guarded_offBooks hoff hl).mono (fun _ _ hI => hI) (fun _ _ => .inl)
    | false =>
      cases hsmf : isSmfRequest h.msgType with
      | false =>
        simp only [Bool.false_eq_true, if_false, if_true]
        have hoff := (handleResponse_only d.data h.sequence).mono
          fun _ => Op.not_isBooking_of_relay
        exact (guarded_offBooks hoff hl).mono (fun _ _ hI => hI) (fun _ _ => .inl)
      | true =>
        simp only [Bool.false_eq_true, Bool.true_eq_false, if_false, handleSmfRequest]
        rw [guarded_bind]
        apply (routeMessage_booked hd hsmf hl).mono (fun _ _ hI => hI)
        intro dec l' hl'
        have hoff := (forwardRequest_only d.data d.src h.sequence dec).mono
          fun _ => Op.not_isBooking_of_relay
        exact (guarded_offBooks hoff rfl).mono (fun _ _ hI => hI) (fun _ _ heq => heq ▸ hl')

/-! ### The books of a run -/

section Books

variable {backends : List SocketAddr} {strategy : LoadBalancingStrategy} {p₀ : Proxy}
  {hist : History} {c : Config Op.Res Proxy Datagram}

lemma exec_read (o : Op) (w : Bool) (p : Proxy) (k : Counter) :
    (exec o w p).2.stats.read k =
      if o = .fetchAdd k then p.stats.read k + 1 else p.stats.read k := by
  cases o with
  | fetchAdd c =>
    by_cases hc : k = c
    · subst hc
      simp [exec, Statistics.read_fetchAdd]
    · have hc' : c ≠ k := fun h => hc h.symm
      simp [exec, Statistics.read_fetchAdd, hc, hc']
  | _ => simp [exec]

/-- The operation bumps the counter `k`. -/
def Op.bumps (k : Counter) (o : Op) : Bool := o = .fetchAdd k

/-- A counter is the number of times it was bumped, up to overflow. -/
theorem read_eq_tally (hp₀ : p₀.stats = Statistics.new) (hr : Run proxy p₀ hist c) (k : Counter) :
    c.shared.stats.read k = UInt64.ofNat (tally (Op.bumps k) hist) := by
  induction hr with
  | nil =>
    rw [hp₀]
    cases k <;> rfl
  | snoc hr hs ih =>
    rw [tally_append]
    cases hs with
    | recv d => exact ih
    | env e => exact (congrArg (fun st => Statistics.read st k) (envStep_stats e _)).trans ih
    | act i d o f w hi =>
      rw [tally_act, show proxy.exec = exec from rfl, exec_read]
      by_cases ho : o = .fetchAdd k
      · simp [ho, ih, tally, Op.bumps]
      · simp [ho, ih, tally, Op.bumps]

/-- Each booking of the run changes the table: establishments carry a SEID and fill a free
slot, nothing else inserts, and removals find their entry. -/
def EffectiveBookings (hist : History) : Prop :=
  ∀ h₁ i a pre h₂ d h, hist = h₁ ++ .act i a pre :: h₂ → .recv i d ∈ h₁ → d.header = some h →
    match a.op with
    | .fetchAdd .sessionsEstablished => h.seid ≠ none
    | .sessionInsert s _ _ => h.msgType = .sessionEstablishmentRequest ∧
        pre.sessionTable.lookupFull s = none
    | .sessionRemove s => pre.sessionTable.lookupFull s ≠ none
    | _ => True

lemma EffectiveBookings.of_snoc {e : Event Op.Res Proxy Datagram Env}
    (hb : EffectiveBookings (hist ++ [e])) : EffectiveBookings hist := by
  intro h₁ i a pre h₂ d h hsplit
  exact hb h₁ i a pre (h₂ ++ [e]) d h (by simp [hsplit])

def Op.isInsert : Op → Bool
  | .sessionInsert _ _ _ => true
  | _ => false

def Op.isRemove : Op → Bool
  | .sessionRemove _ => true
  | _ => false

lemma Op.isBooking_of_insert (o : Op) (ho : o.isInsert = true) : o.isBooking = true := by
  cases o <;> simp_all [Op.isInsert, Op.isBooking]

lemma Op.isBooking_of_remove (o : Op) (ho : o.isRemove = true) : o.isBooking = true := by
  cases o <;> simp_all [Op.isRemove, Op.isBooking]

/-- The table holds what was inserted and not removed. -/
theorem EffectiveBookings.count (hb : EffectiveBookings hist)
    (hr : Run proxy (Proxy.new backends strategy) hist c) :
    c.shared.sessionTable.count + tally Op.isRemove hist = tally Op.isInsert hist := by
  induction hr with
  | nil => rfl
  | @snoc hist c c' e hr hs ih =>
    have ih' := ih hb.of_snoc
    rw [tally_append, tally_append]
    cases hs with
    | recv d => exact ih'
    | env e =>
      simpa [proxy, tally] using ih'
    | act i d o f w hi =>
      have hrecv := hr.recv_mem hi
      obtain ⟨hd, hhd⟩ : ∃ h, d.header = some h := by
        have hr' := hr.snoc (Step.act c i d o f w hi)
        obtain ⟨d', hd', h, hh, _⟩ := conduct_of_act hr'
        obtain rfl : d = d' := hr.recv_unique hrecv hd'
        exact ⟨h, hh⟩
      have heff := hb hist i _ c.shared [] d hd rfl hrecv hhd
      rw [tally_act, tally_act]
      cases o with
      | sessionInsert s u a =>
        have hnone : c.shared.sessionTable.get s = none := by
          simpa [SessionTable.lookupFull] using heff.2
        have hlen := Table.len_insert_of_get_none c.shared.sessionTable
          (⟨u, a, c.shared.now, c.shared.now⟩ : SessionInfo) hnone
        simp only [SessionTable.count] at ih' ⊢
        simp [proxy, exec, SessionTable.insert, hlen, tally, Op.isInsert, Op.isRemove] at ih' ⊢
        omega
      | sessionRemove s =>
        obtain ⟨info, hsome⟩ : ∃ info, c.shared.sessionTable.get s = some info := by
          simpa [SessionTable.lookupFull, Option.ne_none_iff_exists'] using heff
        have hlen := Table.len_remove_of_get_some c.shared.sessionTable hsome
        simp only [SessionTable.count] at ih' ⊢
        simp [proxy, exec, SessionTable.remove, tally, Op.isInsert, Op.isRemove] at ih' hlen ⊢
        omega
      | _ =>
        -- the table is not written
        exact ih'

/-- A finished task has booked its insertion and its removal, each at most once. -/
lemma EffectiveBookings.task (hb : EffectiveBookings hist)
    (hr : Run proxy (Proxy.new backends strategy) hist c) {i : ℕ} {d : Datagram}
    (hdone : c.tasks[i]? = some ⟨d, .done ()⟩) :
    (ledger (acts i hist)).countP (Op.bumps .sessionsEstablished) = (ledger (acts i hist)).countP Op.isInsert ∧
    (ledger (acts i hist)).countP (Op.bumps .sessionsDeleted) = (ledger (acts i hist)).countP Op.isRemove ∧
    (ledger (acts i hist)).countP (Op.bumps .sessionsEstablished) ≤ 1 ∧
    (ledger (acts i hist)).countP (Op.bumps .sessionsDeleted) ≤ 1 := by
  have hbooked : Booked d (ledger (acts i hist)) :=
    hr.finished_guarded handleMessage_booked hdone
  have heff {h : Header} (hd : d.header = some h) {o : Op} (ho : o ∈ ledger (acts i hist)) :
      ∃ (r : o.Res) (pre : Proxy) (h₁ h₂ : History), hist = h₁ ++ .act i ⟨o, r⟩ pre :: h₂ ∧
        .recv i d ∈ h₁ := by
    obtain ⟨r, hact⟩ := exists_act_of_mem_ledger ho
    obtain ⟨h₁, pre, h₂, hsplit⟩ := exists_split_of_mem_acts hact
    have hrecv := hr.recv_mem hdone
    rw [hsplit] at hr hrecv
    exact ⟨r, pre, h₁, h₂, hsplit, (conduct_of_recv hr hrecv).1⟩
  obtain hL | ⟨h, hd, ⟨_, hcase⟩ | ⟨hdef, s, u, _, hL⟩ | ⟨_, s, _, hL⟩⟩ := hbooked
  · simp [hL]
  · obtain ⟨hseid, hL⟩ | ⟨s, u, _, hL⟩ := hcase
    · -- without a SEID nothing is counted
      obtain ⟨r, pre, h₁, h₂, hsplit, hrecv⟩ :=
        heff hd (o := .fetchAdd .sessionsEstablished) (by simp [hL])
      exact absurd hseid (hb h₁ i _ pre h₂ d h hsplit hrecv hd)
    · simp [hL, Op.bumps, Op.isInsert, Op.isRemove]
  · -- the last arm does not insert
    obtain ⟨r, pre, h₁, h₂, hsplit, hrecv⟩ := heff hd (o := .sessionInsert s u d.src) (by simp [hL])
    have hest := (hb h₁ i _ pre h₂ d h hsplit hrecv hd).1
    rw [hest] at hdef
    simp [isDefaultRequest] at hdef
  · simp [hL, Op.bumps, Op.isInsert, Op.isRemove]

/-- Where every booking changes the table, the counters account for the open sessions once
all handlers have returned. -/
theorem session_accounting (hr : Run proxy (Proxy.new backends strategy) hist c)
    (hquiet : ∀ t ∈ c.tasks, t.prog = .done ()) (hlen : c.tasks.length < 2 ^ 64)
    (hb : EffectiveBookings hist) :
    c.shared.stats.sessionsEstablished.toNat =
      c.shared.stats.sessionsDeleted.toNat + c.shared.sessionTable.count := by
  have htask (i : ℕ) (hi : i ∈ Finset.range c.tasks.length) :
      ∃ d, c.tasks[i]? = some ⟨d, .done ()⟩ := by
    have hlt := Finset.mem_range.mp hi
    refine ⟨c.tasks[i].msg, ?_⟩
    rw [List.getElem?_eq_getElem hlt, ← hquiet _ (List.getElem_mem hlt)]
  have hcounts (P P' : Op → Bool) (hP : ∀ o, P o = true → o.isBooking = true)
      (hP' : ∀ o, P' o = true → o.isBooking = true)
      (h : ∀ i d, c.tasks[i]? = some ⟨d, .done ()⟩ →
        (ledger (acts i hist)).countP P = (ledger (acts i hist)).countP P' ∧
        (ledger (acts i hist)).countP P ≤ 1) :
      tally P hist = tally P' hist ∧ tally P hist ≤ c.tasks.length := by
    rw [hr.tally_eq_sum, hr.tally_eq_sum]
    constructor
    · apply Finset.sum_congr rfl
      intro i hi
      obtain ⟨d, hd⟩ := htask i hi
      rw [countP_ledger hP, countP_ledger hP']
      exact (h i d hd).1
    · calc ∑ i ∈ Finset.range c.tasks.length, (acts i hist).countP (fun a => P a.op)
          ≤ ∑ _i ∈ Finset.range c.tasks.length, 1 := by
            apply Finset.sum_le_sum
            intro i hi
            obtain ⟨d, hd⟩ := htask i hi
            rw [countP_ledger hP]
            exact (h i d hd).2
        _ = c.tasks.length := by rw [← Finset.card_eq_sum_ones, Finset.card_range]
  have hbumps (k : Counter) (hk : (Op.fetchAdd k).isBooking = true) (o : Op)
      (ho : Op.bumps k o = true) : o.isBooking = true := by
    obtain rfl : o = .fetchAdd k := by simpa [Op.bumps] using ho
    exact hk
  obtain ⟨hest, hestle⟩ := hcounts (Op.bumps .sessionsEstablished) Op.isInsert (hbumps _ rfl)
    Op.isBooking_of_insert
    (fun i d hd => ⟨(hb.task hr hd).1, (hb.task hr hd).2.2.1⟩)
  obtain ⟨hdel, hdelle⟩ := hcounts (Op.bumps .sessionsDeleted) Op.isRemove (hbumps _ rfl)
    Op.isBooking_of_remove
    (fun i d hd => ⟨(hb.task hr hd).2.1, (hb.task hr hd).2.2.2⟩)
  have hread (k : Counter) (hle : tally (Op.bumps k) hist ≤ c.tasks.length) :
      (c.shared.stats.read k).toNat = tally (Op.bumps k) hist := by
    rw [read_eq_tally rfl hr]
    exact UInt64.toNat_ofNat_of_lt' (Nat.lt_of_le_of_lt hle hlen)
  have hE := hread .sessionsEstablished hestle
  have hD := hread .sessionsDeleted hdelle
  have hcount := hb.count hr
  simp only [Statistics.read] at hE hD
  omega

end Books

/-- An insertion fills a free slot, and a removal finds its entry. -/
def changesTable : Event Op.Res Proxy Datagram Env → Bool
  | .act _ ⟨.sessionInsert s _ _, _⟩ pre => (pre.sessionTable.lookupFull s).isNone
  | .act _ ⟨.sessionRemove s, _⟩ pre => (pre.sessionTable.lookupFull s).isSome
  | _ => true

/-- Two sessions are established, and one of them is deleted. -/
def oneOfTwoDeleted : History × Config Op.Res Proxy Datagram :=
  played [upfX] .roundRobin (oneByOne 0
    [message .sessionEstablishmentRequest (some 7) 1 smfA,
      message .sessionEstablishmentRequest (some 8) 2 smfA,
      message .sessionDeletionRequest (some 7) 3 smfA])

theorem session_accounting_deleted :
    oneOfTwoDeleted.2.shared.stats.sessionsEstablished.toNat =
      oneOfTwoDeleted.2.shared.stats.sessionsDeleted.toNat +
        oneOfTwoDeleted.2.shared.sessionTable.count := by
  have hr : Run proxy (Proxy.new [upfX] .roundRobin) oneOfTwoDeleted.1 oneOfTwoDeleted.2 :=
    played_run _ _ _
  have htasks : oneOfTwoDeleted.2.tasks =
      [⟨message .sessionEstablishmentRequest (some 7) 1 smfA, .done ()⟩,
        ⟨message .sessionEstablishmentRequest (some 8) 2 smfA, .done ()⟩,
        ⟨message .sessionDeletionRequest (some 7) 3 smfA, .done ()⟩] := rfl
  have hall : oneOfTwoDeleted.1.all changesTable = true := by decide +kernel
  apply session_accounting hr
  · simp [htasks]
  · simp [htasks]
  · intro h₁ i a pre h₂ d h hsplit hd hh
    have hev := List.all_eq_true.mp hall (.act i a pre) (by rw [hsplit]; simp)
    have hseid : h.seid ≠ none ∧ isDefaultRequest h.msgType = false := by
      have hmem := mem_receptions_iff.mpr
        (show .recv i d ∈ oneOfTwoDeleted.1 by rw [hsplit]; simp [hd])
      have hrecv : receptions oneOfTwoDeleted.1 =
          [(0, message .sessionEstablishmentRequest (some 7) 1 smfA),
            (1, message .sessionEstablishmentRequest (some 8) 2 smfA),
            (2, message .sessionDeletionRequest (some 7) 3 smfA)] := rfl
      simp only [hrecv, List.mem_cons, Prod.mk.injEq, List.not_mem_nil, or_false] at hmem
      rcases hmem with ⟨-, rfl⟩ | ⟨-, rfl⟩ | ⟨-, rfl⟩ <;> cases hh <;> exact ⟨by simp, rfl⟩
    obtain ⟨_, h', hh', hI⟩ := conduct_of_recv (hsplit ▸ hr) (List.mem_append_left _ hd)
    rw [hh, Option.some.injEq] at hh'
    subst hh'
    obtain ⟨o, r⟩ := a
    cases o with
    | sessionInsert s u a =>
      refine ⟨?_, by simpa [changesTable] using hev⟩
      rcases hI.2.2.2 with hest | ⟨hdef, _⟩
      · exact hest
      · rw [hseid.2] at hdef
        cases hdef
    | sessionRemove s => simpa [changesTable, Option.isSome_iff_ne_none] using hev
    | fetchAdd k => cases k <;> first | exact hseid.1 | trivial
    | _ => trivial

/-- A session that is established twice. -/
def establishedTwice : History × Config Op.Res Proxy Datagram :=
  played [upfX] .roundRobin (oneByOne 0
    [message .sessionEstablishmentRequest (some 7) 1 smfA,
      message .sessionEstablishmentRequest (some 7) 2 smfA])

/-- Two establishments are counted for one entry. -/
theorem session_accounting_fails :
    Run proxy (Proxy.new [upfX] .roundRobin) establishedTwice.1 establishedTwice.2 ∧
    (∀ t ∈ establishedTwice.2.tasks, t.prog = .done ()) ∧
    establishedTwice.2.tasks.length < 2 ^ 64 ∧
    establishedTwice.2.shared.stats.sessionsEstablished.toNat ≠
      establishedTwice.2.shared.stats.sessionsDeleted.toNat +
        establishedTwice.2.shared.sessionTable.count := by
  have htasks : establishedTwice.2.tasks =
      [⟨message .sessionEstablishmentRequest (some 7) 1 smfA, .done ()⟩,
        ⟨message .sessionEstablishmentRequest (some 7) 2 smfA, .done ()⟩] := rfl
  exact ⟨played_run _ _ _, by simp [htasks], by simp [htasks], by decide +kernel⟩

end PfcpProxy
