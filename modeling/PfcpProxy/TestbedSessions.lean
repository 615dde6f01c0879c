import PfcpProxy.TestbedAnswers
import PfcpProxy.LeastSessions
import PfcpProxy.Refusals

/-!
# Establishments in the testbed

An establishment that has reached the proxy is sent to the UPF its session is recorded for, as long
as there is an eligible backend, and answered by that UPF.
-/

namespace PfcpProxy

open AtomicTasks

/-! ### Selection -/

/-- What the handler has read leaves selection without a backend: no backend was eligible, or the
sessions of one fill a `usize`. -/
def Exhausted (l : Acts) : Prop :=
  (⟨.poolHealthyBackends, []⟩ : Act Op.Res) ∈ l ∨
    ∃ u n, usizeMax ≤ n ∧ ⟨.sessionCountByUpf u, n⟩ ∈ l

/-- Selection returns nothing only where what was read leaves it without a backend. -/
abbrev Selects (r : Option SocketAddr) (l : Acts) : Prop := r = none → Exhausted l

lemma selects_some {r : Option SocketAddr} (hr : r.isSome = true) (l : Acts) : Selects r l := by
  rintro rfl
  cases hr

lemma selectRoundRobin_selects (l : Acts) :
    Guarded (fun _ _ => True) Selects selectRoundRobin l := by
  simp only [selectRoundRobin, Prog.call_bind, guarded_act, true_and]
  intro healthy
  split
  next hempty =>
    obtain rfl := List.isEmpty_iff.mp hempty
    exact fun _ => .inl (by simp)
  next hne =>
    refine ⟨trivial, fun idx => selects_some (pickRoundRobin_isSome ?_ idx) _⟩
    rintro rfl
    exact hne rfl

/-- The loop starts with the largest count and without a backend; once there is one, there stays
one. -/
lemma leastSessionsLoop_selects {bs : List UpfBackend} {n : ℕ} {sel : Option SocketAddr} {l : Acts}
    (hsel : sel = none → n = usizeMax ∧ (bs ≠ [] ∨ Exhausted l)) :
    Guarded (fun _ _ => True) Selects (leastSessionsLoop bs n sel) l := by
  induction bs generalizing n sel l with
  | nil => exact fun hnone => (hsel hnone).2.resolve_left fun h => h rfl
  | cons b bs ih =>
    simp only [leastSessionsLoop, Prog.call_bind, guarded_act, true_and]
    intro count
    split
    · exact ih fun hnone => by cases hnone
    next hge =>
      refine ih fun hnone => ?_
      obtain ⟨rfl, _⟩ := hsel hnone
      exact ⟨rfl, .inr (.inr ⟨b.addr, count, Nat.le_of_not_lt hge, by simp⟩)⟩

lemma selectUpf_selects (l : Acts) : Guarded (fun _ _ => True) Selects selectUpf l := by
  simp only [selectUpf, Prog.call_bind, guarded_act, true_and]
  intro strategy
  cases strategy with
  | roundRobin => exact selectRoundRobin_selects _
  | leastSessions =>
    simp only [selectLeastSessions, Prog.call_bind, guarded_act, true_and]
    intro healthy
    split
    next hempty =>
      obtain rfl := List.isEmpty_iff.mp hempty
      exact fun _ => .inl (by simp)
    next hne =>
      refine leastSessionsLoop_selects fun _ => ⟨rfl, .inl ?_⟩
      rintro rfl
      exact hne rfl
  | weighted =>
    simp only [selectWeighted, Prog.call_bind, guarded_act, true_and]
    intro healthy
    split
    next hempty =>
      obtain rfl := List.isEmpty_iff.mp hempty
      exact fun _ => .inl (by simp)
    next =>
      split
      · exact selectRoundRobin_selects _
      next hweight => exact ⟨trivial, fun idx => selects_some (pickWeighted_isSome hweight idx) _⟩

/-- An establishment is recorded for a UPF and sent there, or selection has found none. -/
lemma establishment_placed {d : Datagram} {s : UInt64} {q : UInt32}
    (hd : d.header = some ⟨.sessionEstablishmentRequest, some s, q⟩) :
    Guarded (fun _ _ => True) (fun _ l => Exhausted l ∨ ∃ u ok,
      ⟨.sessionInsert s u d.src, ()⟩ ∈ l ∧ ⟨.sendTo d.data u, ok⟩ ∈ l) (handleMessage d) [] := by
  rw [handleMessage_establishment hd, guarded_bind]
  have hselected : Guarded (fun _ _ => True) Selects selection [] := by
    simp only [selection, recordMessageReceived, Prog.call_bind, Prog.act_bind, guarded_act,
      true_and]
    exact fun _ _ => selectUpf_selects _
  apply hselected.mono (fun _ _ hI => hI)
  intro r l hl
  cases r with
  | none => exact .inl (hl rfl)
  | some u =>
    refine ⟨trivial, fun _ => ⟨trivial, fun _ => ⟨trivial, fun _ => ⟨trivial, fun _ => ?_⟩⟩⟩⟩
    refine ⟨trivial, fun ok => ?_⟩
    cases ok with
    | true => exact ⟨trivial, fun _ => ⟨trivial, fun _ => .inr ⟨u, true, by simp, by simp⟩⟩⟩
    | false => exact ⟨trivial, fun _ => .inr ⟨u, false, by simp, by simp⟩⟩

lemma sent_own {p₀ : Proxy} {hist : History} {c : Config Op.Res Proxy Datagram} {i : ℕ}
    {data : List UInt8} {u : SocketAddr} {ok : Bool} (hr : Run proxy p₀ hist c)
    (hsent : ⟨.sendTo data u, ok⟩ ∈ acts i hist) : ∃ d, .recv i d ∈ hist ∧ data = d.data := by
  obtain ⟨x, pre, y, rfl⟩ := exists_split_of_mem_acts hsent
  obtain ⟨d, hd, _, _, hdata, _⟩ := conduct_of_act hr
  exact ⟨d, List.mem_append_left _ hd, hdata⟩

/-! ### Room for the counts -/

/-- The SEID of a request. -/
def Datagram.asksAbout (d : Datagram) : Option UInt64 :=
  d.header.bind fun h => if isRequest h.msgType then h.seid else none

/-- There are no more sessions than requests that have been received. -/
lemma count_sessions_le {p₀ : Proxy} {hist : History} {c : Config Op.Res Proxy Datagram}
    (hp₀ : p₀.sessionTable = Table.empty) (hr : Run proxy p₀ hist c) :
    c.shared.sessionTable.count ≤
      (receptions hist).countP fun z => z.2.header.any fun h => isRequest h.msgType := by
  have hkeys : c.shared.sessionTable.toFinmap.keys ⊆
      ((receptions hist).filterMap fun z => z.2.asksAbout).toFinset := by
    intro s hs
    obtain ⟨info, hget⟩ := Option.isSome_iff_exists.mp (Table.mem_keys.mp hs)
    obtain ⟨i, ⟨d, h, hd, hh, hseid, _, htype⟩, _, _⟩ := session_founded hp₀ hr
      (s := s) (u := info.upfAddr) (a := info.smfAddr) (by simp [SessionTable.lookupFull, hget])
    rw [List.mem_toFinset, List.mem_filterMap]
    exact ⟨(i, d), mem_receptions_iff.mpr hd,
      by simp [Datagram.asksAbout, hh, isRequest, htype.smf, hseid]⟩
  calc c.shared.sessionTable.count
      ≤ ((receptions hist).filterMap fun z => z.2.asksAbout).toFinset.card :=
        Finset.card_le_card hkeys
    _ ≤ ((receptions hist).filterMap fun z => z.2.asksAbout).length := List.toFinset_card_le _
    _ = (receptions hist).countP fun z => z.2.asksAbout.isSome :=
        List.length_filterMap_eq_countP ..
    _ ≤ (receptions hist).countP fun z => z.2.header.any fun h => isRequest h.msgType := by
        apply List.countP_mono_left
        rintro ⟨i, d⟩ _ hsome
        cases hd : d.header with
        | none => simp [Datagram.asksAbout, hd] at hsome
        | some h =>
          by_cases hreq : isRequest h.msgType = true
          · simp [hreq]
          · simp [Datagram.asksAbout, hd, hreq] at hsome

namespace Testbed

variable {T : Testbed} {s : State} {a : SocketAddr}

lemma Settled.count_lt (hset : Settled s) (hr : Reach T s) (hl : Lone s a) {x y : History}
    (hsplit : s.hist = x ++ y) {c : Config Op.Res Proxy Datagram}
    (hrun : Run PfcpProxy.proxy (Proxy.new T.backends T.strategy) x c) :
    c.shared.sessionTable.count < usizeMax := by
  have hs := hr.sound
  have ha := hr.accounted hl.few
  have hresponses : (s.responses T).countP (fun y => (some y.2).any fun h => isRequest h.msgType) =
      0 := by
    rw [Multiset.countP_eq_zero]
    intro y hy
    simp [isRequest_of_response hy]
  have hfirst : (receptions x).countP (fun z => z.2.header.any fun h => isRequest h.msgType) ≤
      (receptions s.hist).countP fun z => z.2.header.any fun h => isRequest h.msgType := by
    rw [hsplit, receptions_append, List.countP_append]
    exact Nat.le_add_right _ _
  calc c.shared.sessionTable.count
      ≤ (receptions x).countP fun z => z.2.header.any fun h => isRequest h.msgType :=
        count_sessions_le rfl hrun
    _ ≤ (receptions s.hist).countP fun z => z.2.header.any fun h => isRequest h.msgType := hfirst
    _ = s.toProxy.delivered.countP fun d => d.header.any fun h => isRequest h.msgType :=
        hs.countP_received fun d => d.header.any fun h => isRequest h.msgType
    _ = s.requests.countP fun y => (some y.2).any fun h => isRequest h.msgType := by
        rw [hset.toProxy.delivered_eq, ha.countP_sent fun o => o.any fun h => isRequest h.msgType,
          hresponses, add_zero]
    _ ≤ Multiset.card s.requests := Multiset.countP_le_card _ _
    _ ≤ s.asked.length := by
        rw [State.requests, Multiset.coe_card]
        exact List.length_filterMap_le _ _
    _ < 2 ^ 24 - 1 := hl.length_lt
    _ ≤ usizeMax := by decide

lemma Settled.healthy_read (hset : Settled s) (hr : Reach T s) {i : ℕ} {bs : List UpfBackend}
    (hread : ⟨.poolHealthyBackends, bs⟩ ∈ acts i s.hist) :
    bs = T.backends.map UpfBackend.fresh := by
  obtain ⟨x, pre, y, hsplit⟩ := exists_split_of_mem_acts hread
  have hrun := hr.sound.run
  rw [hsplit] at hrun
  obtain ⟨c₁, _, hr₁, rfl, hres⟩ := act_exec hrun
  have hpool : c₁.shared.upfPool.backends = T.backends.map UpfBackend.fresh := by
    rw [(run_backends hr₁).1, hset.poolCalls_eq_nil hsplit]
    rfl
  have hhealthy : bs = c₁.shared.upfPool.healthyBackends := hres
  rw [hhealthy, UpfPool.healthyBackends, hpool, List.filter_eq_self.mpr]
  intro b hb
  obtain ⟨u, _, rfl⟩ := List.mem_map.mp hb
  rfl

lemma Settled.not_exhausted (hset : Settled s) (hr : Reach T s) (hl : Lone s a)
    (hne : T.backends ≠ []) (r : ℕ) : ¬Exhausted (acts r s.hist) := by
  rintro (hread | ⟨u, n, hn, hcount⟩)
  · exact hne (List.map_eq_nil_iff.mp (hset.healthy_read hr hread).symm)
  · obtain ⟨x, pre, y, hsplit⟩ := exists_split_of_mem_acts hcount
    have hrun := hr.sound.run
    rw [hsplit] at hrun
    obtain ⟨c₁, _, hr₁, rfl, hres⟩ := act_exec hrun
    obtain rfl : n = c₁.shared.sessionTable.countByUpf u := hres
    have hlt := hset.count_lt hr hl hsplit hr₁
    have hle := countByUpf_le_count c₁.shared.sessionTable u
    omega

/-- The responses to a request that is sent once come from where it was sent. -/
lemma Accounted.answered_by (ha : Accounted T s) (hs : Sound T s) (hl : Lone s a)
    (hu : Undoubled s) {q : UInt32} {r j : ℕ} {d d' : Datagram} (hz : (r, d) ∈ receptions s.hist)
    (hasks : asksUnder q d.header = true) {u : SocketAddr} {ok : Bool}
    (hsent : ⟨.sendTo d.data u, ok⟩ ∈ acts r s.hist)
    (honce : ((acts r s.hist).countP fun a => a.op.isSend) ≤ 1)
    (hz' : (j, d') ∈ receptions s.hist) (hanswers : answersUnder q d'.header = true) :
    d'.src = u := by
  obtain ⟨h', hh', -, hresp⟩ := answersUnder_iff.mp hanswers
  -- the response is that of a UPF to a copy it has received
  have hmem : (d'.src, some h') ∈ (s.requests + s.responses T).map fun x => (x.1, some x.2) := by
    rw [← ha.account, Multiset.mem_map]
    exact ⟨d', hs.sent_of_received hz', by rw [hh']⟩
  obtain ⟨⟨v, h''⟩, hy, heq⟩ := Multiset.mem_map.mp hmem
  simp only [Prod.mk.injEq, Option.some.injEq] at heq
  obtain ⟨rfl, rfl⟩ := heq
  rcases Multiset.mem_add.mp hy with hy | hy
  · rw [hs.isRequest_of_request hy] at hresp
    cases hresp
  obtain ⟨x, hx, hxy⟩ := (Multiset.mem_filterMap _ _).mp hy
  have hcopy : asksUnder q (T.codec.parse x.1) = true :=
    asks_of_response hxy (by rw [← hh']; exact hanswers)
  -- the copy was sent by the handler of the request
  have hput := Medium.mem_sent_of_mem_delivered (Multiset.mem_filter.mp hx).1
  rw [← hs.transmitted, Multiset.mem_coe, mem_transmissions] at hput
  obtain ⟨i, hput⟩ := hput
  obtain ⟨d₁, hd₁, hdata⟩ := sent_own hs.run hput
  have hasks₁ : asksUnder q d₁.header = true := by
    rw [hs.parsed d₁ (hs.sent_of_received (mem_receptions_iff.mpr hd₁)), ← hdata]
    exact hcopy
  have hsame := hs.asks_sole ha hl hu hz hasks (mem_receptions_iff.mpr hd₁) hasks₁
  simp only [Prod.mk.injEq] at hsame
  obtain ⟨rfl, rfl⟩ := hsame
  have hone := congrArg Act.op (eq_of_countP_le_one honce hput hsent rfl rfl)
  simp only [Op.sendTo.injEq] at hone
  obtain ⟨_, _, hfrom⟩ := Option.map_eq_some_iff.mp hxy
  rw [← hone.2]
  exact (congrArg Prod.fst hfrom).symm

/-- A request that was sent to one UPF is responded to once, and by that UPF. -/
lemma Settled.served (hset : Settled s) (hr : Reach T s) (hl : Lone s a)
    (hbuilds : ∀ seid n ip, T.codec.buildsResponse seid n ip = true) {r : ℕ} {d : Datagram}
    {h : Header} (hz : (r, d) ∈ receptions s.hist) (hsrc : d.src = a) (hh : d.header = some h)
    (hasks : asksUnder h.sequence d.header = true) (hb : isBroadcastRequest h.msgType = false)
    {u : SocketAddr} {ok : Bool} (hsent : ⟨.sendTo d.data u, ok⟩ ∈ acts r s.hist) :
    s.answers T a h.sequence = 1 ∧
      ∀ j d', .recv j d' ∈ s.hist → d'.Answers h.sequence → d'.src = u := by
  have hs := hr.sound
  have honce : ((acts r s.hist).countP fun a => a.op.isSend) ≤ 1 :=
    sends_le_one hs.run (mem_receptions_iff.mp hz) fun h' hh' => by
      rw [hh, Option.some.injEq] at hh'
      exact hh' ▸ hb
  have hpos : 0 < (acts r s.hist).countP fun a => a.op.isSend :=
    List.countP_pos_iff.mpr ⟨_, hsent, rfl⟩
  refine ⟨(hset.answers_eq hr hl hbuilds hz hasks hsrc).trans (le_antisymm honce hpos),
    fun j d' hj hans => ?_⟩
  exact (hr.accounted hl.few).answered_by hs hl hset.undoubled hz hasks hsent honce
    (mem_receptions_iff.mpr hj) (answersUnder_iff.mpr hans)

/-- An establishment is handled by a task that records the UPF to which it sends it. -/
lemma Settled.established (hset : Settled s) (hr : Reach T s) (hl : Lone s a)
    (hne : T.backends ≠ []) {seid : UInt64} {q : UInt32}
    (hm : (a, some ⟨.sessionEstablishmentRequest, some seid, q⟩) ∈ s.asked) :
    ∃ r d u ok, (r, d) ∈ receptions s.hist ∧ d.src = a ∧
      d.header = some ⟨.sessionEstablishmentRequest, some seid, q⟩ ∧
      asksUnder q d.header = true ∧ ⟨.sessionInsert seid u a, ()⟩ ∈ acts r s.hist ∧
      ⟨.sendTo d.data u, ok⟩ ∈ acts r s.hist := by
  obtain ⟨r, d, hz, hsrc, hh, hasks⟩ := hset.asked_received hr hl hm
  have hd := mem_receptions_iff.mp hz
  have hpath := (hset.handled.finished hr.sound.run hd).path hr.sound.run hd
  have hplaced := (establishment_placed hh).path hpath
  rw [List.nil_append] at hplaced
  obtain ⟨u, ok, hins, hsent⟩ := hplaced.resolve_left (hset.not_exhausted hr hl hne r)
  rw [hsrc] at hins
  exact ⟨r, d, u, ok, hz, hsrc, hh, hasks, hins, hsent⟩

/-- Establishments are not lost: once everything has arrived, and nothing was lost, a lone client
has received exactly one response to each establishment, as long as the proxy has backends, and
from the UPF that the proxy has recorded the session for. -/
theorem established_once (hr : Reach T s) (hl : Lone s a) (hset : Settled s)
    (hbuilds : ∀ seid n ip, T.codec.buildsResponse seid n ip = true) (hne : T.backends ≠ [])
    {seid : UInt64} {q : UInt32}
    (hm : (a, some ⟨.sessionEstablishmentRequest, some seid, q⟩) ∈ s.asked) :
    s.answers T a q = 1 ∧ ∃ r u, ⟨.sessionInsert seid u a, ()⟩ ∈ acts r s.hist ∧
      ∀ j d, .recv j d ∈ s.hist → d.Answers q → d.src = u := by
  obtain ⟨r, d, u, ok, hz, hsrc, hh, hasks, hins, hsent⟩ := hset.established hr hl hne hm
  obtain ⟨hone, hfrom⟩ := hset.served hr hl hbuilds hz hsrc hh hasks rfl hsent
  exact ⟨hone, r, u, hins, hfrom⟩

/-- Session 7 is established. -/
theorem established_once_seven : answered.answers twoBackends smfA 2 = 1 ∧
    ∃ r u, ⟨.sessionInsert 7 u smfA, ()⟩ ∈ acts r answered.hist ∧
      ∀ j d, .recv j d ∈ answered.hist → d.Answers 2 → d.src = u :=
  established_once answered_reach answered_lone answered_settled (fun _ _ _ => rfl) (by decide)
    (by decide +kernel)

end Testbed

end PfcpProxy
