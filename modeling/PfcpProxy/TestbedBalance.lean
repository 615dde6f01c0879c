import PfcpProxy.TestbedLifecycle
import PfcpProxy.ConcurrentSelection
import PfcpProxy.Report

/-!
# Load balance in the testbed

Round robin spreads the sessions of a client evenly over a pool that stays as it is, however the
requests are interleaved, and the rows of the report show it.
-/

namespace PfcpProxy

open AtomicTasks

/-! ### Placements -/

/-- The UPF that a session is recorded for. -/
def Op.placedOn : Op → Option SocketAddr
  | .sessionInsert _ u _ => some u
  | _ => none

/-- The operations that place a session. -/
def Op.places : Op → Bool
  | .poolNextIndex | .sessionInsert _ _ _ => true
  | _ => false

/-- The UPFs that sessions were recorded for. -/
def placed (l : Acts) : List SocketAddr := l.filterMap fun a => a.op.placedOn

lemma placed_append (l l' : Acts) : placed (l ++ l') = placed l ++ placed l' :=
  List.filterMap_append

lemma placed_of_not_places {l : Acts} (hl : ∀ a ∈ l, a.op.places = false) : placed l = [] := by
  rw [placed, List.filterMap_eq_nil_iff]
  rintro ⟨o, r⟩ ha
  have ho := hl _ ha
  cases o <;> first | rfl | cases ho

lemma fetches_of_not_places {l : Acts} (hl : ∀ a ∈ l, a.op.places = false) : fetches l = [] := by
  rw [fetches, List.filterMap_eq_nil_iff]
  rintro ⟨o, r⟩ ha
  have ho := hl _ ha
  cases o <;> first | rfl | cases ho

lemma Op.not_places_of_relay {o : Op} (ho : o.isRelay = true) : o.places = false := by
  cases o <;> first | rfl | cases ho

/-- A handler that round robin serves takes one value of the index and records its session for the
UPF that is picked for it. -/
lemma establishment_turn {d : Datagram} {s : UInt64} {q : UInt32} {l : Acts}
    {healthy : List UpfBackend} (hd : d.header = some ⟨.sessionEstablishmentRequest, some s, q⟩)
    (hp : Path (handleMessage d) l (.done ()))
    (hstrategy : ∀ st, ⟨.poolStrategy, st⟩ ∈ l → st = .roundRobin)
    (hread : ∀ bs, ⟨.poolHealthyBackends, bs⟩ ∈ l → bs = healthy) (hne : healthy ≠ []) :
    ∃ idx u, fetches l = [idx] ∧ pickRoundRobin healthy idx = some u ∧ placed l = [u] := by
  rw [handleMessage_establishment hd] at hp
  obtain ⟨r, l₁, l₂, rfl, hselect, hsettle⟩ := path_bind_done hp
  have hplaced₁ : placed l₁ = [] := by
    apply List.filterMap_eq_nil_iff.mpr
    intro a ha
    have hquiet := hselect.only selection_quiet a ha
    obtain ⟨o, r⟩ := a
    cases o <;> first | rfl | cases hquiet
  -- the selection
  cases hselect with | cons _ hselect =>
  cases hselect with | cons _ hselect =>
  cases hselect with | @cons _ _ x _ st hselect =>
  obtain rfl : st = .roundRobin := hstrategy st (by simp)
  obtain ⟨idx, hidx, rfl⟩ := selectRoundRobin_takesOne hne x r hselect
    fun bs hbs => hread bs (by simp [hbs])
  obtain ⟨u, hu⟩ := Option.isSome_iff_exists.mp (pickRoundRobin_isSome hne idx)
  rw [hu] at hsettle
  -- what follows it
  cases hsettle with | cons _ hsettle =>
  cases hsettle with | cons _ hsettle =>
  cases hsettle with | @cons _ _ y _ _ hsettle =>
  have hforward : Path (forwardRequest d.data d.src q (.single u)) y (.done ()) := hsettle
  have hrelay : ∀ a ∈ y, a.op.places = false := fun a ha =>
    Op.not_places_of_relay (hforward.only (forwardRequest_only _ _ _ _) a ha)
  refine ⟨idx, u, ?_, hu, ?_⟩
  · rw [fetches_append]
    change fetches x ++ fetches y = [idx]
    rw [hidx, fetches_of_not_places hrelay, List.append_nil]
  · rw [placed_append, hplaced₁, List.nil_append]
    change u :: placed y = [u]
    rw [placed_of_not_places hrelay]

lemma other_places {d : Datagram} {h : Header} (hd : d.header = some h)
    (ht : isRequest h.msgType = false ∨ isBroadcastRequest h.msgType = true ∨
      h.msgType = .sessionDeletionRequest) :
    Only (fun o => o.places = false) (handleMessage d) := by
  have hreceived (t : MsgType) : Only (fun o => o.places = false) (recordMessageReceived t) :=
    ⟨rfl, fun _ => ⟨rfl, fun _ => trivial⟩⟩
  have hforward (dec : RoutingDecision) :
      Only (fun o => o.places = false) (forwardRequest d.data d.src h.sequence dec) :=
    (forwardRequest_only _ _ _ dec).mono fun _ => Op.not_places_of_relay
  rcases ht with hresp | hb | hdel
  · rw [handleMessage_response hd hresp]
    exact only_bind (hreceived _) fun _ =>
      (handleResponse_only _ _).mono fun _ => Op.not_places_of_relay
  · rw [handleMessage_smf hd ((isSmfRequest_iff _).mpr (.inl hb)), routeMessage_of_broadcast hb]
    exact only_bind (hreceived _) fun _ =>
      only_bind ⟨rfl, fun _ => ⟨rfl, fun _ => trivial⟩⟩ hforward
  · obtain ⟨t, seid, n⟩ := h
    obtain rfl : t = .sessionDeletionRequest := hdel
    rw [handleMessage_smf hd rfl]
    refine only_bind (hreceived _) fun _ => only_bind ?_ hforward
    cases seid with
    | none => trivial
    | some s =>
      refine ⟨rfl, fun r => ?_⟩
      cases r with
      | none => trivial
      | some u => exact ⟨rfl, fun _ => ⟨rfl, fun _ => ⟨rfl, fun _ => trivial⟩⟩⟩

section Runs

variable {p₀ : Proxy} {hist h₁ h₂ : History} {c : Config Op.Res Proxy Datagram}

/-- Where the tasks record their sessions as picked for the values they take, the sessions are
recorded as picked for the values that are taken, in some order. -/
lemma placed_perm {pick : UInt64 → Option SocketAddr} (hr : Run proxy p₀ hist c)
    (htask : ∀ z ∈ receptions hist,
      placed (acts z.1 hist) = (fetches (acts z.1 hist)).filterMap pick) :
    (placed (allActs hist)).Perm ((fetches (allActs hist)).filterMap pick) := by
  have hplaced : (placed (allActs hist)).Perm
      ((receptions hist).flatMap fun z => placed (acts z.1 hist)) := by
    simpa only [placed, List.filterMap_flatMap] using
      hr.allActs_perm.filterMap fun a => a.op.placedOn
  have hfetched : (fetches (allActs hist)).Perm
      ((receptions hist).flatMap fun z => fetches (acts z.1 hist)) := by
    simpa only [fetches, List.filterMap_flatMap] using hr.allActs_perm.filterMap _
  refine hplaced.trans (.trans ?_ (hfetched.filterMap pick).symm)
  rw [List.filterMap_flatMap, List.flatMap_congr htask]

/-- Entries are recorded under fresh SEIDs. -/
def FreshEntries (hist : History) : Prop :=
  ∀ x i s u a pre y, hist = x ++ .act i ⟨.sessionInsert s u a, ()⟩ pre :: y →
    ∀ j v b, ⟨.sessionInsert s v b, ()⟩ ∉ acts j x

lemma FreshEntries.of_append (h : FreshEntries (h₁ ++ h₂)) : FreshEntries h₁ := by
  rintro x i s u a pre y rfl
  exact h x i s u a pre (y ++ h₂) (by simp)

/-- Where no entry is written twice and none is removed, the table has what was placed. -/
lemma countIf_eq_placed (hp₀ : p₀.sessionTable = Table.empty) (hr : Run proxy p₀ hist c)
    (hfresh : FreshEntries hist) (hkeep : ∀ i s, ⟨.sessionRemove s, ()⟩ ∉ acts i hist)
    (P : SocketAddr → Bool) :
    c.shared.sessionTable.countIf (fun info => P info.upfAddr) =
      (placed (allActs hist)).countP P := by
  induction hr with
  | nil =>
    rw [hp₀]
    exact Table.countIf_eq_zero _ fun k v hget => by cases hget
  | @snoc h c c' e hr hs ih =>
    have ih' := ih hfresh.of_append fun i s hm => hkeep i s (by simp [hm])
    rw [allActs_append, placed_append, List.countP_append, ← ih']
    cases hs with
    | recv d => rfl
    | env e => simp [proxy, allActs, placed]
    | act i d o k w hi =>
      cases o with
      | sessionInsert s u b =>
        have hnone : c.shared.sessionTable.get s = none := by
          by_contra hne
          obtain ⟨info, hget⟩ := Option.ne_none_iff_exists'.mp hne
          obtain ⟨j, hj⟩ := session_origin hp₀ hr (s := s) (u := info.upfAddr)
            (a := info.smfAddr) (by simp [SessionTable.lookupFull, hget])
          exact hfresh h i s u b c.shared [] rfl j _ _ hj
        have hinsert := Table.countIf_insert_of_get_none c.shared.sessionTable
          (⟨u, b, c.shared.now, c.shared.now⟩ : SessionInfo) (fun info => P info.upfAddr) hnone
        refine hinsert.trans ?_
        simp [allActs, placed, Op.placedOn, List.countP_cons]
      | sessionRemove s => exact absurd (by simp) (hkeep i s)
      | _ => simp [proxy, exec, allActs, placed, Op.placedOn]

end Runs

namespace Testbed

variable {T : Testbed} {s : State} {a : SocketAddr}

lemma Reach.strategy_read (hr : Reach T s) {i : ℕ} {st : LoadBalancingStrategy}
    (hread : ⟨.poolStrategy, st⟩ ∈ acts i s.hist) : st = T.strategy := by
  obtain ⟨x, pre, y, hsplit⟩ := exists_split_of_mem_acts hread
  have hrun := hr.sound.run
  rw [hsplit] at hrun
  obtain ⟨c₁, _, hr₁, rfl, hres⟩ := act_exec hrun
  have hst : st = c₁.shared.upfPool.strategy := hres
  rw [hst, run_strategy hr₁]
  rfl

def establishes (o : Option Header) : Bool :=
  o.any fun h => h.msgType = .sessionEstablishmentRequest

/-- A task places a session as its turn is, if it handles an establishment. -/
lemma Settled.turn (hset : Settled s) (hr : Reach T s) (hl : Lone s a)
    (hstrategy : T.strategy = .roundRobin) (hne : T.backends ≠ []) {i : ℕ} {d : Datagram}
    (hz : (i, d) ∈ receptions s.hist) :
    placed (acts i s.hist) = (fetches (acts i s.hist)).filterMap
        (pickRoundRobin (T.backends.map UpfBackend.fresh)) ∧
      (placed (acts i s.hist)).length = if establishes d.header then 1 else 0 := by
  have hs := hr.sound
  have ha := hr.accounted hl.few
  have hd := mem_receptions_iff.mp hz
  have hpath := (hset.handled.finished hs.run hd).path hs.run hd
  obtain ⟨h, hg⟩ := ha.genuine d (hs.sent_of_received hz)
  have hh := hg.header
  have hother (ht : isRequest h.msgType = false ∨ isBroadcastRequest h.msgType = true ∨
      h.msgType = .sessionDeletionRequest) (hnot : h.msgType ≠ .sessionEstablishmentRequest) :
      placed (acts i s.hist) = (fetches (acts i s.hist)).filterMap
          (pickRoundRobin (T.backends.map UpfBackend.fresh)) ∧
        (placed (acts i s.hist)).length = if establishes d.header then 1 else 0 := by
    have hnone := hpath.only (other_places hh ht)
    rw [placed_of_not_places hnone, fetches_of_not_places hnone]
    simp [establishes, hh, hnot]
  by_cases hreq : isRequest h.msgType = true
  · rcases hr.kind (ha.asked_of_received hs hl hd hh hreq) with ⟨hb, _⟩ | ⟨seid, hseid, he | he⟩
    · refine hother (.inr (.inl hb)) fun he => ?_
      rw [he] at hb
      cases hb
    · obtain ⟨t, sd, n⟩ := h
      obtain rfl : sd = some seid := hseid
      obtain rfl : t = .sessionEstablishmentRequest := he
      obtain ⟨idx, u, hfetched, hpick, hplaced⟩ := establishment_turn hh hpath
        (fun st hst => (hr.strategy_read hst).trans hstrategy)
        (fun bs hbs => hset.healthy_read hr hbs) (by simpa using hne)
      simp [hfetched, hplaced, hpick, establishes, hh]
    · exact hother (.inr (.inr he)) (by simp [he])
  · refine hother (.inl (Bool.eq_false_iff.mpr hreq)) fun he => ?_
    rw [he] at hreq
    exact hreq rfl

lemma Settled.length_placed (hset : Settled s) (hr : Reach T s) (hl : Lone s a)
    (hstrategy : T.strategy = .roundRobin) (hne : T.backends ≠ []) :
    (placed (allActs s.hist)).length = s.asked.countP fun x => establishes x.2 := by
  have hs := hr.sound
  have ha := hr.accounted hl.few
  have hnone : (s.responses T).countP (fun x => establishes (some x.2)) = 0 := by
    rw [Multiset.countP_eq_zero]
    rintro ⟨v, h⟩ hx hest
    have hresp := isRequest_of_response hx
    simp only [establishes, Option.any_some, decide_eq_true_eq] at hest
    rw [hest] at hresp
    cases hresp
  calc (placed (allActs s.hist)).length
      = ((receptions s.hist).map fun z => (placed (acts z.1 s.hist)).length).sum := by
        rw [placed, (hs.run.allActs_perm.filterMap _).length_eq, List.filterMap_flatMap,
          List.length_flatMap]
        rfl
    _ = ((receptions s.hist).map fun z => if establishes z.2.header then 1 else 0).sum := by
        congr 1
        exact List.map_congr_left fun z hz => (hset.turn hr hl hstrategy hne hz).2
    _ = (receptions s.hist).countP fun z => establishes z.2.header := sum_map_ite_one _ _
    _ = s.toProxy.sent.countP fun d => establishes d.header := by
        rw [hs.countP_received fun d => establishes d.header, hset.toProxy.delivered_eq]
    _ = s.requests.countP fun x => establishes (some x.2) := by
        rw [ha.countP_sent, hnone, add_zero]
    _ = s.asked.countP fun x => establishes x.2 := by
        rw [State.requests, Multiset.coe_countP, List.countP_filterMap]
        apply List.countP_congr
        rintro ⟨b, o⟩ _
        cases o <;> simp [establishes]

/-- The client establishes each session once and deletes none. -/
structure Establishing (s : State) (a : SocketAddr) : Prop where
  once : ∀ seid q q', (a, some ⟨.sessionEstablishmentRequest, some seid, q⟩) ∈ s.asked →
    (a, some ⟨.sessionEstablishmentRequest, some seid, q'⟩) ∈ s.asked → q = q'
  keeps : ∀ seid q, (a, some ⟨.sessionDeletionRequest, some seid, q⟩) ∉ s.asked

lemma Establishing.freshEntries (hest : Establishing s a) (hr : Reach T s) (hl : Lone s a)
    (hu : Undoubled s) : FreshEntries s.hist := by
  intro x i seid u b pre y hsplit j v b' hj
  have hs := hr.sound
  have ha := hr.accounted hl.few
  have hrun := hs.run
  have hi : ⟨.sessionInsert seid u b, ()⟩ ∈ acts i s.hist := by simp [hsplit]
  obtain ⟨d, ⟨t, sd, q⟩, hd, hh, rfl, htype⟩ := inserter hrun hi
  have hreq : isRequest t = true := by
    have hsmf : isSmfRequest t = true := by
      rw [isSmfRequest_iff]
      tauto
    simp [isRequest, hsmf]
  have hm := ha.asked_of_received hs hl hd hh hreq
  obtain rfl : t = .sessionEstablishmentRequest :=
    (hr.about_session hm rfl).resolve_right fun hdel => hest.keeps seid q (hdel ▸ hm)
  have hasks : asksUnder q d.header = true := by simp [asksUnder, hh, hreq]
  have hj' : ⟨.sessionInsert seid v b', ()⟩ ∈ acts j s.hist := by
    rw [hsplit, acts_append]
    exact List.mem_append_left _ hj
  obtain rfl := ha.insert_eq hs hl hu (mem_receptions_iff.mpr hd) hasks
    (fun h hask hseid _ =>
      hr.sole (fun n hn => hest.once seid n q hn hm) (hest.keeps seid) hask hseid) hj'
  rw [hsplit] at hrun
  cases unwritten_before hrun rfl hj

lemma Establishing.not_remove (hest : Establishing s a) (hr : Reach T s) (hl : Lone s a) (i : ℕ)
    (seid : UInt64) : ⟨.sessionRemove seid, ()⟩ ∉ acts i s.hist := by
  intro hrem
  obtain ⟨d, ⟨t, sd, q⟩, hd, hh, rfl, rfl⟩ := remover hr.sound.run hrem
  exact hest.keeps seid q ((hr.accounted hl.few).asked_of_received hr.sound hl hd hh rfl)

/-- How often a backend is placed on is how often its turn comes among the values of the index. -/
lemma Settled.count_placed (hset : Settled s) (hr : Reach T s) (hl : Lone s a)
    (hstrategy : T.strategy = .roundRobin) (hnodup : T.backends.Nodup) {u : ℕ}
    (hu : u < T.backends.length) : (placed (allActs s.hist)).count T.backends[u] =
      Nat.count (fun k => (0 + k) % UInt64.size % T.backends.length = u)
        (placed (allActs s.hist)).length := by
  have hs := hr.sound
  have hne : T.backends ≠ [] := List.ne_nil_of_length_pos (by omega)
  have hperm := placed_perm hs.run fun z hz => (hset.turn hr hl hstrategy hne hz).1
  obtain ⟨n, hrange, _⟩ := fetches_eq_range hs.run
  rw [hrange] at hperm
  have hlen : (placed (allActs s.hist)).length = n := by
    rw [hperm.length_eq, List.length_filterMap_eq_countP, List.countP_map,
      List.countP_eq_length.mpr, List.length_range]
    intro k _
    exact pickRoundRobin_isSome (by simpa using hne) _
  have hnodup' : ((T.backends.map UpfBackend.fresh).map (·.addr)).Nodup := by
    simpa [Function.comp_def, UpfBackend.fresh] using hnodup
  have hpick (k : ℕ) : pickRoundRobin (T.backends.map UpfBackend.fresh) (0 + UInt64.ofNat k) =
      some T.backends[u] ↔ (0 + k) % UInt64.size % T.backends.length = u := by
    have hiff := pickRoundRobin_eq_iff hnodup' (u := u) (by simpa using hu) (0 + UInt64.ofNat k)
    rw [toNat_index] at hiff
    simpa [UpfBackend.fresh] using hiff
  have hstart : (Proxy.new T.backends T.strategy).upfPool.nextIndex = 0 := rfl
  rw [hlen, hperm.count_eq, List.count_filterMap, List.countP_map, hstart, Nat.count]
  apply List.countP_congr
  intro k _
  rw [Function.comp_apply, beq_iff_eq, decide_eq_true_eq]
  exact hpick k

/-- The load test: once everything has arrived, and nothing was lost, the rows of the report add up
to the sessions that a lone client has established, and no backend has more than one session more
than another, however the requests were interleaved. -/
theorem load_balanced (hr : Reach T s) (hl : Lone s a) (hset : Settled s)
    (hstrategy : T.strategy = .roundRobin) (hne : T.backends ≠ []) (hnodup : T.backends.Nodup)
    (hest : Establishing s a) :
    s.proxy.shared.report.rowSessions = (s.asked.countP fun x => establishes x.2) ∧
      ∀ row ∈ s.proxy.shared.report.upfStats, ∀ row' ∈ s.proxy.shared.report.upfStats,
        row.activeSessions ≤ row'.activeSessions + 1 := by
  have hs := hr.sound
  have hlen := hset.length_placed hr hl hstrategy hne
  have htable (P : SocketAddr → Bool) :
      s.proxy.shared.sessionTable.countIf (fun info => P info.upfAddr) =
        (placed (allActs s.hist)).countP P :=
    countIf_eq_placed rfl hs.run (hest.freshEntries hr hl hset.undoubled)
      (hest.not_remove hr hl) P
  have hpool : s.proxy.shared.upfPool.backends = T.backends.map UpfBackend.fresh := by
    rw [(run_backends hs.run).1, hset.pool]
    rfl
  have haddrs : s.proxy.shared.upfPool.addrs = T.backends := by
    simp [UpfPool.addrs, hpool, UpfBackend.fresh, Function.comp_def]
  constructor
  · have hmem : ∀ u ∈ placed (allActs s.hist), u ∈ T.backends := by
      intro u hu
      have hperm := placed_perm hs.run fun z hz => (hset.turn hr hl hstrategy hne hz).1
      obtain ⟨idx, _, hpick⟩ := List.mem_filterMap.mp (hperm.mem_iff.mp hu)
      obtain ⟨b, hb, rfl⟩ := pickRoundRobin_mem hpick
      obtain ⟨v, hv, rfl⟩ := List.mem_map.mp hb
      exact hv
    have hstranded : s.proxy.shared.strandedSessions = 0 := by
      rw [Proxy.strandedSessions, htable fun u => u ∉ s.proxy.shared.upfPool.addrs,
        List.countP_eq_zero]
      intro u hu
      simpa [haddrs] using hmem u hu
    have hall : s.proxy.shared.report.activeSessions = (placed (allActs s.hist)).length := by
      have hsum := Table.sum_countIf_add s.proxy.shared.sessionTable (·.upfAddr) List.nodup_nil
      rw [List.map_nil, List.sum_nil, zero_add, htable fun u => u ∉ ([] : List SocketAddr)] at hsum
      exact hsum.symm.trans (List.countP_eq_length.mpr fun u _ => by simp)
    have hrows := activeSessions_eq s.proxy.shared (haddrs ▸ hnodup)
    rw [hstranded, add_zero, hall, hlen] at hrows
    exact hrows.symm
  · have hrow : ∀ row ∈ s.proxy.shared.report.upfStats, ∃ u, ∃ hu : u < T.backends.length,
        row.activeSessions = (placed (allActs s.hist)).count T.backends[u] := by
      intro row hrow
      obtain ⟨b, hb, rfl⟩ := List.mem_map.mp hrow
      rw [hpool] at hb
      obtain ⟨v, hv, rfl⟩ := List.mem_map.mp hb
      obtain ⟨u, hu, rfl⟩ := List.getElem_of_mem hv
      refine ⟨u, hu, (htable fun w => w = T.backends[u]).trans ?_⟩
      rw [List.count]
      exact List.countP_congr fun w _ => by simp
    intro row hr₁ row' hr₂
    obtain ⟨u, hu, hcount⟩ := hrow row hr₁
    obtain ⟨v, hv, hcount'⟩ := hrow row' hr₂
    have hfit : 0 + (placed (allActs s.hist)).length ≤ UInt64.size := by
      have hle : (s.asked.countP fun x => establishes x.2) ≤ s.asked.length := List.countP_le_length
      have hfew := hl.length_lt
      have hsize : 2 ^ 24 - 1 ≤ UInt64.size := by decide
      omega
    have hshare := Shares.count_wrapped_residue_le hu hv (s := 0) (by decide : 0 < UInt64.size)
      (by omega : (placed (allActs s.hist)).length ≤ UInt64.size)
    rw [if_pos hfit] at hshare
    rw [hcount, hcount', hset.count_placed hr hl hstrategy hnodup hu,
      hset.count_placed hr hl hstrategy hnodup hv]
    exact hshare

def another : List UInt8 :=
  Codec.marshalHeader ⟨.sessionEstablishmentRequest, some 8, 3⟩ secondBody
def anotherAccepted : List UInt8 :=
  Codec.marshalHeader ⟨.sessionEstablishmentResponse, some 8, 3⟩ secondAcceptedBody

/-- The client establishes another session. -/
def establishing : List twoBackends.Move :=
  .ask smfA (.establishSession 8) secondBody ::
  .receive (datagram .plain smfA another) :: handled 5 ++
  .respond (another, upfY) secondAcceptedBody ::
  .receive (datagram .plain upfY anotherAccepted) :: handled 6 ++
  [.arrive (anotherAccepted, smfA)]

def balanced : State := follow establishing answered

lemma balanced_asked : balanced.asked =
    [(smfA, some ⟨.heartbeatRequest, none, 1⟩),
      (smfA, some ⟨.sessionEstablishmentRequest, some 7, 2⟩),
      (smfA, some ⟨.sessionEstablishmentRequest, some 8, 3⟩)] := by
  decide +kernel

lemma balanced_settled : Settled balanced where
  toProxy := ⟨by decide +kernel, by decide +kernel, by decide +kernel⟩
  fromProxy := ⟨by decide +kernel, by decide +kernel, by decide +kernel⟩
  handled := quiescent_of_all (by decide +kernel)
  sends := allSendsSucceed_of_all (by decide +kernel)
  pool := by
    rw [← List.length_eq_zero_iff]
    decide +kernel
  prompt := prompt_of_all (by decide +kernel)

lemma balanced_establishing : Establishing balanced smfA where
  once := by
    intro seid q q' hq hq'
    have hwhich : seid = 7 ∧ q = 2 ∨ seid = 8 ∧ q = 3 := by simpa [balanced_asked] using hq
    have hwhich' : seid = 7 ∧ q' = 2 ∨ seid = 8 ∧ q' = 3 := by simpa [balanced_asked] using hq'
    rcases hwhich with ⟨rfl, rfl⟩ | ⟨rfl, rfl⟩ <;> simp_all
  keeps := by simp [balanced_asked]

theorem load_balanced_two :
    balanced.proxy.shared.report.rowSessions = (balanced.asked.countP fun x => establishes x.2) ∧
      ∀ row ∈ balanced.proxy.shared.report.upfStats,
        ∀ row' ∈ balanced.proxy.shared.report.upfStats,
          row.activeSessions ≤ row'.activeSessions + 1 :=
  load_balanced (answered_reach.steps (follow_steps establishing answered))
    ⟨by simp [balanced_asked], few_of_length (by simp [balanced_asked])⟩ balanced_settled rfl (by decide)
    (by decide) balanced_establishing

end Testbed

end PfcpProxy
