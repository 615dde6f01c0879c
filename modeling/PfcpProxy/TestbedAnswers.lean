import PfcpProxy.Testbed
import PfcpProxy.RequestExchange

/-!
# Answers in the testbed

How often the requests of a lone client are answered. Responses are counted along their way: from
the copies of a request that the proxy sends, to the responses of the UPFs, to what the proxy
forwards and what the client receives.
-/

namespace PfcpProxy

open AtomicTasks

/-- A request with this number. -/
def asksUnder (q : UInt32) (o : Option Header) : Bool :=
  o.any fun h => isRequest h.msgType && h.sequence = q

/-- A response with this number. -/
def answersUnder (q : UInt32) (o : Option Header) : Bool :=
  o.any fun h => !isRequest h.msgType && h.sequence = q

lemma asksUnder_iff {q : UInt32} {d : Datagram} : asksUnder q d.header = true ↔ d.Asks q := by
  cases hd : d.header <;> simp [asksUnder, Datagram.Asks, hd, and_comm]

lemma answersUnder_iff {q : UInt32} {d : Datagram} :
    answersUnder q d.header = true ↔ d.Answers q := by
  cases hd : d.header <;> simp [answersUnder, Datagram.Answers, hd, and_comm]

lemma eq_of_countP_le_one {A : Type} {P : A → Bool} {l : List A} (h : l.countP P ≤ 1) {x y : A}
    (hx : x ∈ l) (hy : y ∈ l) (hPx : P x = true) (hPy : P y = true) : x = y := by
  have hx' := List.mem_filter.mpr ⟨hx, hPx⟩
  have hy' := List.mem_filter.mpr ⟨hy, hPy⟩
  rw [List.countP_eq_length_filter] at h
  cases hl : l.filter P with
  | nil => simp [hl] at hx'
  | cons z t =>
    obtain rfl : t = [] := by
      rw [hl, List.length_cons] at h
      exact List.eq_nil_of_length_eq_zero (by omega)
    rw [hl, List.mem_singleton] at hx' hy'
    rw [hx', hy']

section Transmissions

variable {p₀ : Proxy} {hist : History} {c : Config Op.Res Proxy Datagram} {i : ℕ} {d : Datagram}
  {Q : List UInt8 × SocketAddr → Bool}

/-- What one task has put on the network. -/
def transmissionsOf (i : ℕ) (hist : History) : List (List UInt8 × SocketAddr) :=
  (acts i hist).filterMap transmission

lemma countP_transmissions (hr : Run proxy p₀ hist c) :
    (transmissions hist).countP Q =
      ((receptions hist).map fun z => (transmissionsOf z.1 hist).countP Q).sum := by
  rw [transmissions, (hr.allActs_perm.filterMap transmission).countP_eq, List.filterMap_flatMap,
    List.countP_flatMap]
  rfl

lemma mem_transmissionsOf {x : List UInt8 × SocketAddr} :
    x ∈ transmissionsOf i hist ↔ ⟨.sendTo x.1 x.2, true⟩ ∈ acts i hist := by
  simp [transmissionsOf, transmission_eq_some]

lemma countP_transmissionsOf_le :
    (transmissionsOf i hist).countP Q ≤ (acts i hist).countP fun a => a.op.isSend := by
  rw [transmissionsOf, List.countP_filterMap]
  apply List.countP_mono_left
  rintro ⟨o, res⟩ _ hQ
  cases o with
  | sendTo data dst => rfl
  | _ => cases hQ

lemma countP_transmissionsOf_eq_zero (hr : Run proxy p₀ hist c) (hd : .recv i d ∈ hist)
    (hQ : ∀ dst, Q (d.data, dst) = false) : (transmissionsOf i hist).countP Q = 0 := by
  rw [List.countP_eq_zero]
  rintro ⟨data, dst⟩ hx
  obtain ⟨y, pre, z, rfl⟩ := exists_split_of_mem_acts (mem_transmissionsOf.mp hx)
  obtain ⟨_, h, _, hdata, _⟩ := conduct_of_recv hr hd
  simp only at hdata
  simp [hdata, hQ]

end Transmissions

lemma Quiescent.finished {p₀ : Proxy} {hist : History} {c : Config Op.Res Proxy Datagram}
    (hq : Quiescent c) (hr : Run proxy p₀ hist c) {i : ℕ} {d : Datagram} (hd : .recv i d ∈ hist) :
    Finished c i := by
  obtain ⟨p, hp⟩ := hr.exists_task hd
  have hdone : p = .done () := hq _ (List.mem_of_getElem? hp)
  exact ⟨d, hdone ▸ hp⟩

namespace Testbed

variable {T : Testbed} {s s' : State} {a : SocketAddr} {q : UInt32}

/-- No datagram was doubled. -/
structure Undoubled (s : State) : Prop where
  toProxy : s.toProxy.doubled = 0
  fromProxy : s.fromProxy.doubled = 0

/-- All calls are of one client, which has not used up the sequence numbers. -/
structure Lone (s : State) (a : SocketAddr) : Prop where
  all : ∀ x ∈ s.asked, x.1 = a
  few : s.Few

lemma Lone.length_lt (hl : Lone s a) : s.asked.length < 2 ^ 24 - 1 := by
  have hall : s.calls a = s.asked.length :=
    List.countP_eq_length.mpr fun x hx => decide_eq_true (hl.all x hx)
  rw [← hall]
  exact hl.few a

lemma Sound.countP_received (hs : Sound T s) (P : Datagram → Bool) :
    (receptions s.hist).countP (fun z => P z.2) = s.toProxy.delivered.countP fun d => P d := by
  rw [← hs.received, Multiset.coe_countP, List.countP_map]
  simp [Function.comp_def]

lemma Sound.countP_transmitted (hs : Sound T s) (Q : List UInt8 × SocketAddr → Bool) :
    (transmissions s.hist).countP Q = s.fromProxy.sent.countP fun x => Q x := by
  rw [← hs.transmitted, Multiset.coe_countP]
  simp

/-! ### Requests -/

lemma Sound.countP_requests_le (hs : Sound T s) (hl : Lone s a) :
    s.requests.countP (fun x => x.2.sequence = q) ≤ 1 := by
  have hpairs : (s.asked.filterMap fun x => x.2.map Header.sequence).Nodup := by
    rw [List.Nodup, List.pairwise_filterMap]
    apply pairwise_of_splits
    rintro x ⟨b, o⟩ y hsplit ⟨b', o'⟩ hm n hn n' hn'
    obtain ⟨h, rfl, rfl⟩ := Option.map_eq_some_iff.mp hn
    obtain ⟨h', rfl, rfl⟩ := Option.map_eq_some_iff.mp hn'
    obtain rfl : b = a := hl.all (b, some h') (by simp [hsplit])
    obtain rfl : b' = b := hl.all (b', some h) (by rw [hsplit]; exact List.mem_append_left _ hm)
    exact hs.numbers_ne hl.few hsplit hm
  have hcount := List.nodup_iff_count_le_one.mp hpairs q
  rw [List.count, List.countP_filterMap] at hcount
  rw [State.requests, Multiset.coe_countP, List.countP_filterMap]
  refine le_trans (List.countP_mono_left fun x _ hx => ?_) hcount
  cases hx₂ : x.2 <;> simp_all

lemma Accounted.countP_sent (ha : Accounted T s) (P : Option Header → Bool) :
    (s.toProxy.sent.countP fun d => P d.header) =
      (s.requests.countP fun x => P (some x.2)) + (s.responses T).countP fun x => P (some x.2) := by
  rw [← Multiset.countP_add]
  have hmap : (s.toProxy.sent.countP fun d => P d.header) =
      (s.toProxy.sent.map fun d => (d.src, d.header)).countP fun x => P x.2 := by
    rw [Multiset.countP_map, Multiset.countP_eq_card_filter]
  rw [hmap, ha.account, Multiset.countP_map, Multiset.countP_eq_card_filter]

lemma isRequest_of_response {x : SocketAddr × Header} (hx : x ∈ s.responses T) :
    isRequest x.2.msgType = false := by
  obtain ⟨y, _, hy⟩ := (Multiset.mem_filterMap _ _).mp hx
  obtain ⟨h, hbind, rfl⟩ := Option.map_eq_some_iff.mp hy
  obtain ⟨h₀, _, hto⟩ := Option.bind_eq_some_iff.mp hbind
  exact (TestUpf.responseTo_header hto).2.1

lemma Sound.isRequest_of_request (hs : Sound T s) {x : SocketAddr × Header}
    (hx : x ∈ s.requests) : isRequest x.2.msgType = true := by
  have hsmf := (hs.built x.1 x.2 (mem_requests.mp hx)).1
  simp [isRequest, hsmf]

/-- Among what is sent to the proxy there is at most one request with a number. -/
lemma Sound.countP_asks_le (hs : Sound T s) (ha : Accounted T s) (hl : Lone s a) :
    (s.toProxy.sent.countP fun d => asksUnder q d.header) ≤ 1 := by
  have hnone : (s.responses T).countP (fun x => asksUnder q (some x.2)) = 0 := by
    rw [Multiset.countP_eq_zero]
    intro x hx
    simp [asksUnder, isRequest_of_response hx]
  have hsame : s.requests.countP (fun x => asksUnder q (some x.2)) =
      s.requests.countP fun x => x.2.sequence = q := by
    apply Multiset.countP_congr rfl
    intro x hx
    simp [asksUnder, hs.isRequest_of_request hx]
  rw [ha.countP_sent, hnone, hsame, add_zero]
  exact hs.countP_requests_le hl

lemma Sound.asks_unique (hs : Sound T s) (ha : Accounted T s) (hl : Lone s a)
    (hu : Undoubled s) : ((receptions s.hist).countP fun z => asksUnder q z.2.header) ≤ 1 := by
  rw [hs.countP_received fun d => asksUnder q d.header]
  exact (Multiset.countP_le_of_le _ (Medium.delivered_le hu.toProxy)).trans
    (hs.countP_asks_le ha hl)

lemma Sound.asks_sole (hs : Sound T s) (ha : Accounted T s) (hl : Lone s a) (hu : Undoubled s)
    {r : ℕ} {d : Datagram} (hz : (r, d) ∈ receptions s.hist)
    (hasks : asksUnder q d.header = true) {z : ℕ × Datagram} (hz' : z ∈ receptions s.hist)
    (hasks' : asksUnder q z.2.header = true) : z = (r, d) :=
  eq_of_countP_le_one (hs.asks_unique ha hl hu) hz' hz hasks' hasks

/-! ### Responses -/

/-- The copies of the requests with a number that the proxy has sent. -/
def copiesSent (q : UInt32) (hist : History) : ℕ :=
  ((receptions hist).map fun z =>
    if asksUnder q z.2.header then (acts z.1 hist).countP fun a => a.op.isSend else 0).sum

lemma Sound.countP_asks_transmitted_le (hs : Sound T s) :
    ((transmissions s.hist).countP fun x => asksUnder q (T.codec.parse x.1)) ≤
      copiesSent q s.hist := by
  rw [countP_transmissions hs.run, copiesSent]
  apply List.sum_le_sum
  rintro ⟨i, d⟩ hz
  have hd := mem_receptions_iff.mp hz
  split
  · exact countP_transmissionsOf_le
  next hnot =>
    rw [countP_transmissionsOf_eq_zero hs.run hd fun dst => ?_]
    simpa [hs.parsed d (hs.sent_of_received hz)] using hnot

/-- The responses with a number answer datagrams that have reached a UPF. -/
lemma countP_responses (P : Header → Bool) : (s.responses T).countP (fun x => P x.2) =
    s.fromProxy.delivered.countP fun x => (T.response x).any (fun y => P y.2) ∧ x.2 ∈ T.upfs := by
  rw [State.responses, ← Multiset.countP_filter]
  generalize s.fromProxy.delivered.filter (fun x => x.2 ∈ T.upfs) = m
  induction m using Quotient.inductionOn with
  | _ l =>
    simp only [Multiset.quot_mk_to_coe, Multiset.filterMap_coe, Multiset.coe_countP,
      List.countP_filterMap]
    apply List.countP_congr
    intro x _
    cases T.response x <;> simp

lemma asks_of_response {x : List UInt8 × SocketAddr} {y : SocketAddr × Header}
    (hy : T.response x = some y) (hanswers : answersUnder q (some y.2) = true) :
    asksUnder q (T.codec.parse x.1) = true := by
  obtain ⟨h, hbind, rfl⟩ := Option.map_eq_some_iff.mp hy
  obtain ⟨h₀, hparse, hto⟩ := Option.bind_eq_some_iff.mp hbind
  obtain ⟨hseq, _, hreq, _⟩ := TestUpf.responseTo_header hto
  simp only [answersUnder, Option.any_some, Bool.and_eq_true, decide_eq_true_eq] at hanswers
  simp [asksUnder, hparse, hreq, ← hseq, hanswers.2]

/-- Each copy of a request is responded to at most once. -/
lemma Accounted.countP_answers_le (ha : Accounted T s) (hs : Sound T s) (hu : Undoubled s) :
    ((receptions s.hist).countP fun z => answersUnder q z.2.header) ≤ copiesSent q s.hist := by
  have hnone : s.requests.countP (fun x => answersUnder q (some x.2)) = 0 := by
    rw [Multiset.countP_eq_zero]
    intro x hx
    simp [answersUnder, hs.isRequest_of_request hx]
  have hresponses : (s.responses T).countP (fun x => answersUnder q (some x.2)) ≤
      s.fromProxy.delivered.countP fun x => asksUnder q (T.codec.parse x.1) := by
    rw [countP_responses fun h => answersUnder q (some h), Multiset.countP_eq_card_filter,
      Multiset.countP_eq_card_filter]
    apply Multiset.card_le_card
    apply Multiset.monotone_filter_right
    rintro x ⟨hx, _⟩
    obtain ⟨y, hy, hanswers⟩ := (Option.any_eq_true _ _).mp hx
    exact asks_of_response hy hanswers
  calc (receptions s.hist).countP (fun z => answersUnder q z.2.header)
      = s.toProxy.delivered.countP fun d => answersUnder q d.header :=
        hs.countP_received fun d => answersUnder q d.header
    _ ≤ s.toProxy.sent.countP fun d => answersUnder q d.header :=
        Multiset.countP_le_of_le _ (Medium.delivered_le hu.toProxy)
    _ = (s.responses T).countP fun x => answersUnder q (some x.2) := by
        rw [ha.countP_sent, hnone, zero_add]
    _ ≤ s.fromProxy.delivered.countP fun x => asksUnder q (T.codec.parse x.1) := hresponses
    _ ≤ s.fromProxy.sent.countP fun x => asksUnder q (T.codec.parse x.1) :=
        Multiset.countP_le_of_le _ (Medium.delivered_le hu.fromProxy)
    _ = (transmissions s.hist).countP fun x => asksUnder q (T.codec.parse x.1) :=
        (hs.countP_transmitted _).symm
    _ ≤ copiesSent q s.hist := hs.countP_asks_transmitted_le

/-- The responses with a number that the client has received. -/
def State.answers (s : State) (T : Testbed) (a : SocketAddr) (q : UInt32) : ℕ :=
  s.fromProxy.delivered.countP fun x => x.2 = a ∧ answersUnder q (T.codec.parse x.1)

/-- A response is forwarded at most once. -/
lemma Sound.answers_le (hs : Sound T s) (hu : Undoubled s) :
    s.answers T a q ≤ (receptions s.hist).countP fun z => answersUnder q z.2.header := by
  have htask {i : ℕ} {d : Datagram} (hz : (i, d) ∈ receptions s.hist) :
      ((transmissionsOf i s.hist).countP fun x => decide (x.2 = a) &&
        answersUnder q (T.codec.parse x.1)) ≤ if answersUnder q d.header then 1 else 0 := by
    have hd := mem_receptions_iff.mp hz
    have hparse := hs.parsed d (hs.sent_of_received hz)
    split
    next hanswers =>
      obtain ⟨h, hh, _, hresp⟩ := answersUnder_iff.mp hanswers
      refine countP_transmissionsOf_le.trans (sends_le_one hs.run hd fun h' hh' => ?_)
      rw [hh, Option.some.injEq] at hh'
      exact hh' ▸ isBroadcastRequest_of_response hresp
    next hnot =>
      rw [countP_transmissionsOf_eq_zero hs.run hd fun dst => ?_]
      simp [← hparse, hnot]
  calc s.answers T a q
      ≤ s.fromProxy.sent.countP fun x => x.2 = a ∧ answersUnder q (T.codec.parse x.1) :=
        Multiset.countP_le_of_le _ (Medium.delivered_le hu.fromProxy)
    _ = (transmissions s.hist).countP fun x => decide (x.2 = a) &&
          answersUnder q (T.codec.parse x.1) := by
        rw [hs.countP_transmitted]
        simp
    _ ≤ ((receptions s.hist).map fun z => if answersUnder q z.2.header then 1 else 0).sum := by
        rw [countP_transmissions hs.run]
        exact List.sum_le_sum fun z hz => htask hz
    _ = (receptions s.hist).countP fun z => answersUnder q z.2.header := sum_map_ite_one _ _

lemma Lone.header_eq (hl : Lone s a) (hs : Sound T s) (ha : Accounted T s) {h : Header}
    (hm : (a, some h) ∈ s.asked) {i : ℕ} {d : Datagram} (hz : (i, d) ∈ receptions s.hist)
    (hasks : asksUnder h.sequence d.header = true) : d.header = some h ∧ d.src = a := by
  obtain ⟨h', hh', hq, hreq⟩ := asksUnder_iff.mp hasks
  have hask := (ha.genuine_of_mem (hs.sent_of_received hz) hh').mem_asked hreq
  have hsrc : d.src = a := hl.all _ hask
  rw [hsrc] at hask
  rw [hh', hs.request_unique hl.few hask hm hq]
  exact ⟨rfl, hsrc⟩

/-- Requests are not answered too often: whatever the network loses and however it reorders, a
lone client receives at most one response to a request about a session, and at most one for each
entry of the largest pool to a request that is broadcast. -/
theorem answered_at_most (hr : Reach T s) (hl : Lone s a) (hu : Undoubled s) {h : Header}
    (hm : (a, some h) ∈ s.asked) :
    s.answers T a h.sequence ≤ mostCopies (largestPool T.backends) h.msgType := by
  have hs := hr.sound
  have ha := hr.accounted hl.few
  have hsends : ∀ z ∈ receptions s.hist, asksUnder h.sequence z.2.header = true →
      ((acts z.1 s.hist).countP fun a => a.op.isSend) ≤
        mostCopies (largestPool T.backends) h.msgType := by
    rintro ⟨i, d⟩ hz hasks
    have hpools := poolsAtMost hs.run (n := largestPool T.backends) (Nat.le_max_left _ _)
      (by simp [Proxy.new, UpfPool.new, largestPool]) i
    have hpos : 0 < largestPool T.backends := lt_of_lt_of_le (by decide) (Nat.le_max_left 64 _)
    have hle := sends_le_mostSends hs.run hpos (mem_receptions_iff.mp hz) hpools
    rwa [mostSends, (hl.header_eq hs ha hm hz hasks).1] at hle
  calc s.answers T a h.sequence
      ≤ (receptions s.hist).countP fun z => answersUnder h.sequence z.2.header := hs.answers_le hu
    _ ≤ copiesSent h.sequence s.hist := ha.countP_answers_le hs hu
    _ ≤ ((receptions s.hist).countP fun z => asksUnder h.sequence z.2.header) *
          mostCopies (largestPool T.backends) h.msgType := sum_map_ite_le hsends
    _ ≤ 1 * mostCopies (largestPool T.backends) h.msgType :=
        Nat.mul_le_mul_right _ (hs.asks_unique ha hl hu)
    _ = mostCopies (largestPool T.backends) h.msgType := Nat.one_mul _

lemma answered_lone : Lone answered smfA where
  all := by decide +kernel
  few := answered_few

lemma answered_undoubled : Undoubled answered where
  toProxy := by decide +kernel
  fromProxy := by decide +kernel

theorem answered_at_most_two :
    answered.answers twoBackends smfA 1 ≤ 64 ∧ answered.answers twoBackends smfA 2 ≤ 1 :=
  ⟨answered_at_most answered_reach answered_lone answered_undoubled
      (h := ⟨.heartbeatRequest, none, 1⟩) (by decide +kernel),
    answered_at_most answered_reach answered_lone answered_undoubled
      (h := ⟨.sessionEstablishmentRequest, some 7, 2⟩) (by decide +kernel)⟩

/-! ### Exchanges -/

/-- What a step adds to the histories, and the doubles it adds. -/
structure Grows (s s' : State) : Prop where
  hist : s'.hist = s.hist ∨ ∃ e, s'.hist = s.hist ++ [e]
  asked : s.asked <+: s'.asked
  toProxy : s.toProxy.doubled ≤ s'.toProxy.doubled
  fromProxy : s.fromProxy.doubled ≤ s'.fromProxy.doubled

lemma Step.grows (hstep : Step T s s') : Grows s s' := by
  cases hstep with
  | ask a call body ha => exact ⟨.inl rfl, List.prefix_append _ _, le_refl _, le_refl _⟩
  | receive d hd => exact ⟨.inr ⟨_, rfl⟩, List.prefix_rfl, le_refl _, le_refl _⟩
  | proxy e c hs he => exact ⟨.inr ⟨e, rfl⟩, List.prefix_rfl, le_refl _, le_refl _⟩
  | respond x hx body hu => exact ⟨.inl rfl, List.prefix_rfl, le_refl _, le_refl _⟩
  | arrive x hx hu => exact ⟨.inl rfl, List.prefix_rfl, le_refl _, le_refl _⟩
  | faultTo m hm => exact ⟨.inl rfl, List.prefix_rfl, hm.doubled_le, le_refl _⟩
  | faultFrom m hm => exact ⟨.inl rfl, List.prefix_rfl, le_refl _, hm.doubled_le⟩

lemma Undoubled.of_grows (hu : Undoubled s') (hg : Grows s s') : Undoubled s where
  toProxy := nonpos_iff_eq_zero.mp (hu.toProxy ▸ hg.toProxy)
  fromProxy := nonpos_iff_eq_zero.mp (hu.fromProxy ▸ hg.fromProxy)

lemma Lone.of_grows (hl : Lone s' a) (hg : Grows s s') : Lone s a where
  all := fun x hx => hl.all x (hg.asked.subset hx)
  few := fun b => lt_of_le_of_lt (hg.asked.sublist.countP_le) (hl.few b)

/-- What is so in every state is so at every point of the proxy's history. -/
lemma Reach.earlier (hr : Reach T s) (hl : Lone s a) (hu : Undoubled s) {x y : History}
    (hsplit : s.hist = x ++ y) : ∃ s₁, Reach T s₁ ∧ s₁.hist = x ∧ Lone s₁ a ∧ Undoubled s₁ := by
  induction hr generalizing y with
  | start =>
    obtain ⟨rfl, rfl⟩ := List.append_eq_nil_iff.mp hsplit.symm
    exact ⟨T.start, .start, rfl, hl, hu⟩
  | @step s s' hr hstep ih =>
    have hg := hstep.grows
    rcases List.eq_nil_or_concat y with rfl | ⟨y, e, rfl⟩
    · exact ⟨s', hr.step hstep, by simpa using hsplit, hl, hu⟩
    rcases hg.hist with hsame | ⟨e', hmore⟩
    · exact ih (hl.of_grows hg) (hu.of_grows hg) (hsame.symm.trans hsplit)
    · rw [hmore, List.concat_eq_append, ← List.append_assoc] at hsplit
      exact ih (hl.of_grows hg) (hu.of_grows hg) (List.append_inj' hsplit rfl).1

/-- Responses are looked up within 60 s of the record of a request. -/
def Prompt (hist : History) : Prop :=
  ∀ i j q b e pre pre' src f, .act i ⟨.pendingInsert q src b f, ()⟩ pre ∈ hist →
    .act j ⟨.pendingLookupAndIncrement q, e⟩ pre' ∈ hist → pre'.now - pre.now < fromSecs 60

/-- Everything that was sent has arrived, the handlers of the proxy have returned, all its sends
have succeeded, nobody has changed its pool and no response was late. -/
structure Settled (s : State) : Prop where
  toProxy : s.toProxy.Settled
  fromProxy : s.fromProxy.Settled
  handled : Quiescent s.proxy
  sends : AllSendsSucceed s.hist
  pool : poolCalls s.hist = []
  prompt : Prompt s.hist

lemma Settled.undoubled (hset : Settled s) : Undoubled s :=
  ⟨hset.toProxy.doubled, hset.fromProxy.doubled⟩

lemma Settled.mem_receptions (hset : Settled s) (hs : Sound T s) {d : Datagram}
    (hd : d ∈ s.toProxy.sent) : ∃ i, (i, d) ∈ receptions s.hist := by
  rw [← hset.toProxy.delivered_eq, ← hs.received, Multiset.mem_coe, List.mem_map] at hd
  obtain ⟨⟨i, d⟩, hz, rfl⟩ := hd
  exact ⟨i, hz⟩

lemma Settled.poolCalls_eq_nil (hset : Settled s) {x y : History} (hsplit : s.hist = x ++ y) :
    poolCalls x = [] := by
  have hall := hset.pool
  rw [hsplit, poolCalls, List.filterMap_append, List.append_eq_nil_iff] at hall
  exact hall.1

lemma copiesSent_le {x : History} {r : ℕ} {d : Datagram}
    (hone : ((receptions x).countP fun z => asksUnder q z.2.header) ≤ 1)
    (hsole : ∀ z ∈ receptions x, asksUnder q z.2.header = true → z = (r, d)) :
    copiesSent q x ≤ (acts r x).countP fun a => a.op.isSend := by
  calc copiesSent q x
      ≤ ((receptions x).countP fun z => asksUnder q z.2.header) *
          (acts r x).countP fun a => a.op.isSend :=
        sum_map_ite_le fun z hz hasks => by rw [hsole z hz hasks]
    _ ≤ 1 * (acts r x).countP fun a => a.op.isSend := Nat.mul_le_mul_right _ hone
    _ = (acts r x).countP fun a => a.op.isSend := Nat.one_mul _

/-- A request of a lone client is an exchange of the proxy. -/
lemma Settled.exchange (hset : Settled s) (hr : Reach T s) (hl : Lone s a) {r : ℕ} {d : Datagram}
    (hz : (r, d) ∈ receptions s.hist) (hasks : asksUnder q d.header = true) :
    RequestExchange (Proxy.new T.backends T.strategy) s.hist r d q := by
  have hs := hr.sound
  have hsole : ∀ z ∈ receptions s.hist, asksUnder q z.2.header = true → z = (r, d) :=
    fun z hz' => hs.asks_sole (hr.accounted hl.few) hl hset.undoubled hz hasks hz'
  refine ⟨mem_receptions_iff.mp hz, asksUnder_iff.mp hasks, fun j d' hj hasks' => ?_,
    fun x y hsplit => ?_, fun i j src b f e pre pre' => hset.prompt i j q b e pre pre' src f,
    hset.sends, fun x y hsplit => ?_⟩
  · have heq := hsole (j, d') (mem_receptions_iff.mpr hj) (asksUnder_iff.mpr hasks')
    exact congrArg Prod.fst heq
  · rw [pooled, hset.poolCalls_eq_nil hsplit]
    rfl
  · -- at every point there were no more responses than copies
    obtain ⟨s₁, hr₁, rfl, hl₁, hu₁⟩ := hr.earlier hl hset.undoubled hsplit
    have ha₁ := hr₁.accounted hl₁.few
    refine (ha₁.countP_answers_le hr₁.sound hu₁).trans
      (copiesSent_le (d := d) (hr₁.sound.asks_unique ha₁ hl₁ hu₁) fun z hz' => hsole z ?_)
    rw [hsplit, receptions_append]
    exact List.mem_append_left _ hz'

/-- A copy of a request reaches a UPF that responds to it, where the responses can be built. -/
lemma Accounted.response_of_asks (ha : Accounted T s) (hs : Sound T s)
    (hbuilds : ∀ seid n ip, T.codec.buildsResponse seid n ip = true)
    {x : List UInt8 × SocketAddr} (hx : x ∈ s.fromProxy.sent)
    (hasks : asksUnder q (T.codec.parse x.1) = true) :
    (T.response x).any (fun y => answersUnder q (some y.2)) = true ∧ x.2 ∈ T.upfs := by
  obtain ⟨d, hd, h, hh, hdata, hsmf, _⟩ := hs.transmission hx
  have hparse : T.codec.parse x.1 = some h := by rw [hdata, ← hs.parsed d hd, hh]
  simp only [hparse, asksUnder, Option.any_some, Bool.and_eq_true, decide_eq_true_eq] at hasks
  have hg := ha.genuine_of_mem hd hh
  obtain ⟨hreq, hbuilt⟩ := hs.built _ _ (hg.mem_asked hasks.1)
  have hto : (TestUpf.responseTo T.codec (T.localIp x.2) h).isSome = true :=
    TestUpf.responseTo_isSome hbuilds (hbuilt hg.small) hreq
  obtain ⟨h', hto⟩ := Option.isSome_iff_exists.mp hto
  obtain ⟨hseq, hresp, _⟩ := TestUpf.responseTo_header hto
  exact ⟨by simp [response, hparse, hto, answersUnder, hseq, hresp, hasks.2], hsmf hreq⟩

/-- All copies of a request are responded to, where the responses can be built. -/
lemma Settled.copies_le_received (hset : Settled s) (hs : Sound T s) (ha : Accounted T s)
    (hbuilds : ∀ seid n ip, T.codec.buildsResponse seid n ip = true) {r : ℕ} {d : Datagram}
    (hz : (r, d) ∈ receptions s.hist) (hasks : asksUnder q d.header = true) :
    ((acts r s.hist).countP fun a => a.op.isSend) ≤
      (receptions s.hist).countP fun z => answersUnder q z.2.header := by
  have hown : ((acts r s.hist).countP fun a => a.op.isSend) ≤
      (transmissionsOf r s.hist).countP fun x => asksUnder q (T.codec.parse x.1) := by
    rw [transmissionsOf, List.countP_filterMap]
    apply List.countP_mono_left
    rintro ⟨o, ok⟩ hm hsend
    cases o with
    | sendTo data dst =>
      cases ok with
      | false => exact absurd hm (hset.sends r data dst)
      | true =>
        obtain ⟨y, pre, z, hsplit⟩ := exists_split_of_mem_acts hm
        have hrun := hs.run
        have hrecv := mem_receptions_iff.mp hz
        rw [hsplit] at hrun hrecv
        obtain ⟨_, h, _, hdata, _⟩ := conduct_of_recv hrun hrecv
        simp [transmission, hdata, ← hs.parsed d (hs.sent_of_received hz), hasks]
    | _ => cases hsend
  have hone : ((transmissionsOf r s.hist).countP fun x => asksUnder q (T.codec.parse x.1)) ≤
      (transmissions s.hist).countP fun x => asksUnder q (T.codec.parse x.1) := by
    rw [countP_transmissions hs.run]
    exact List.single_le_sum (fun _ _ => Nat.zero_le _) _ (List.mem_map_of_mem hz)
  calc ((acts r s.hist).countP fun a => a.op.isSend)
      ≤ (transmissions s.hist).countP fun x => asksUnder q (T.codec.parse x.1) := hown.trans hone
    _ = s.fromProxy.delivered.countP fun x => asksUnder q (T.codec.parse x.1) := by
        rw [hs.countP_transmitted, hset.fromProxy.delivered_eq]
    _ = s.fromProxy.delivered.countP fun x =>
          (T.response x).any (fun y => answersUnder q (some y.2)) ∧ x.2 ∈ T.upfs := by
        apply Multiset.countP_congr rfl
        intro x hx
        apply propext
        constructor
        · intro hasks'
          exact ha.response_of_asks hs hbuilds (Medium.mem_sent_of_mem_delivered hx) hasks'
        · rintro ⟨hany, _⟩
          obtain ⟨y, hy, hanswers⟩ := (Option.any_eq_true _ _).mp hany
          exact asks_of_response hy hanswers
    _ = (s.responses T).countP fun x => answersUnder q (some x.2) :=
        (countP_responses fun h => answersUnder q (some h)).symm
    _ ≤ s.toProxy.sent.countP fun d => answersUnder q d.header := by
        rw [ha.countP_sent]
        exact Nat.le_add_left _ _
    _ = (receptions s.hist).countP fun z => answersUnder q z.2.header := by
        rw [hs.countP_received fun d => answersUnder q d.header, hset.toProxy.delivered_eq]

/-- Every response that the proxy has received is forwarded to the client. -/
lemma Settled.answers_le_received (hset : Settled s) (hr : Reach T s) (hl : Lone s a) {r : ℕ}
    {d : Datagram} (hz : (r, d) ∈ receptions s.hist) (hasks : asksUnder q d.header = true)
    (hsrc : d.src = a) :
    ((receptions s.hist).countP fun z => answersUnder q z.2.header) ≤ s.answers T a q := by
  have hs := hr.sound
  have hx := hset.exchange hr hl hz hasks
  have htask : ∀ z ∈ receptions s.hist, (if answersUnder q z.2.header then 1 else 0) ≤
      (transmissionsOf z.1 s.hist).countP fun x => decide (x.2 = a) &&
        answersUnder q (T.codec.parse x.1) := by
    rintro ⟨j, d'⟩ hz'
    split
    next hanswers =>
      have hj := mem_receptions_iff.mp hz'
      have hdone := hset.handled.finished hs.run hj
      have hsent := (hx.forwarded hs.run hj (answersUnder_iff.mp hanswers) hdone).1
      rw [hsrc] at hsent
      apply List.countP_pos_iff.mpr
      refine ⟨(d'.data, a), mem_transmissionsOf.mpr hsent, ?_⟩
      simpa [← hs.parsed d' (hs.sent_of_received hz')] using hanswers
    next => exact Nat.zero_le _
  calc (receptions s.hist).countP (fun z => answersUnder q z.2.header)
      = ((receptions s.hist).map fun z => if answersUnder q z.2.header then 1 else 0).sum :=
        (sum_map_ite_one _ _).symm
    _ ≤ (transmissions s.hist).countP fun x => decide (x.2 = a) &&
          answersUnder q (T.codec.parse x.1) := by
        rw [countP_transmissions hs.run]
        exact List.sum_le_sum htask
    _ = s.answers T a q := by
        rw [hs.countP_transmitted, State.answers, hset.fromProxy.delivered_eq]
        simp

lemma Accounted.exists_sent (ha : Accounted T s) {h : Header} (hm : (a, some h) ∈ s.asked) :
    ∃ d ∈ s.toProxy.sent, d.src = a ∧ d.header = some h := by
  have hmem : (a, some h) ∈ s.toProxy.sent.map fun d => (d.src, d.header) := by
    rw [ha.account, Multiset.mem_map]
    exact ⟨(a, h), Multiset.mem_add.mpr (.inl (mem_requests.mpr hm)), rfl⟩
  obtain ⟨d, hd, heq⟩ := Multiset.mem_map.mp hmem
  exact ⟨d, hd, congrArg Prod.fst heq, congrArg Prod.snd heq⟩

lemma Settled.broadcast_sends (hset : Settled s) (hr : Reach T s) (hl : Lone s a) {r : ℕ}
    {d : Datagram} {h : Header} (hz : (r, d) ∈ receptions s.hist) (hh : d.header = some h)
    (hb : isBroadcastRequest h.msgType = true) :
    ((acts r s.hist).countP fun a => a.op.isSend) = T.backends.length := by
  have hs := hr.sound
  have hasks : asksUnder h.sequence d.header = true := by
    simp [asksUnder, hh, isRequest, (isSmfRequest_iff h.msgType).mpr (.inl hb)]
  have hx := hset.exchange hr hl hz hasks
  have hd := mem_receptions_iff.mp hz
  have hpath := (hset.handled.finished hs.run hd).path hs.run hd
  obtain ⟨bs, _, _, _, hl, _⟩ := broadcast_path hh hb hpath
  have hread : ⟨.poolAllBackends, bs⟩ ∈ acts r s.hist := by simp [hl]
  have hcopies := congrArg List.length (broadcast_copies hh hb hpath hread)
  have hsends : (copies (acts r s.hist)).length = (acts r s.hist).countP fun a => a.op.isSend := by
    rw [copies, List.length_filterMap_eq_countP]
    apply List.countP_congr
    rintro ⟨o, ok⟩ _
    cases o <;> simp [Op.copy, Op.isSend]
  obtain ⟨y, pre, z, hsplit⟩ := exists_split_of_mem_acts hread
  have hrun := hs.run
  rw [hsplit] at hrun
  obtain ⟨c₁, _, hr₁, rfl, hres⟩ := act_exec hrun
  obtain rfl : bs = c₁.shared.upfPool.backends := hres
  have hpool : c₁.shared.upfPool.backends.length = T.backends.length := by
    rw [← UpfPool.length_addrs, run_addrs hr₁, hx.fixed y _ hsplit]
    simp [Proxy.new, UpfPool.new, UpfPool.addrs]
  rw [← hsends, hcopies, List.length_map, hpool]

/-- The responses to a request are as many as the copies that were sent of it. -/
lemma Settled.answers_eq (hset : Settled s) (hr : Reach T s) (hl : Lone s a)
    (hbuilds : ∀ seid n ip, T.codec.buildsResponse seid n ip = true) {r : ℕ} {d : Datagram}
    (hz : (r, d) ∈ receptions s.hist) (hasks : asksUnder q d.header = true) (hsrc : d.src = a) :
    s.answers T a q = (acts r s.hist).countP fun a => a.op.isSend := by
  have hs := hr.sound
  have ha := hr.accounted hl.few
  apply le_antisymm
  · calc s.answers T a q
        ≤ (receptions s.hist).countP fun z => answersUnder q z.2.header :=
          hs.answers_le hset.undoubled
      _ ≤ copiesSent q s.hist := ha.countP_answers_le hs hset.undoubled
      _ ≤ (acts r s.hist).countP fun a => a.op.isSend :=
          copiesSent_le (d := d) (hs.asks_unique ha hl hset.undoubled) fun z hz' hasks' =>
            hs.asks_sole ha hl hset.undoubled hz hasks hz' hasks'
  · exact (hset.copies_le_received hs ha hbuilds hz hasks).trans
      (hset.answers_le_received hr hl hz hasks hsrc)

lemma Settled.asked_received (hset : Settled s) (hr : Reach T s) (hl : Lone s a) {h : Header}
    (hm : (a, some h) ∈ s.asked) : ∃ r d, (r, d) ∈ receptions s.hist ∧ d.src = a ∧
      d.header = some h ∧ asksUnder h.sequence d.header = true := by
  have hs := hr.sound
  obtain ⟨d, hd, hsrc, hh⟩ := (hr.accounted hl.few).exists_sent hm
  obtain ⟨r, hz⟩ := hset.mem_receptions hs hd
  exact ⟨r, d, hz, hsrc, hh, by simp [asksUnder, hh, isRequest, (hs.built a h hm).1]⟩

/-- Requests are answered exactly as often as they are forwarded: once everything has arrived, and
nothing was lost, a lone client has received one response for each copy of a request that the proxy
has sent, which are one for every backend if the request is broadcast, and at most one otherwise. -/
theorem answered_exactly (hr : Reach T s) (hl : Lone s a) (hset : Settled s)
    (hbuilds : ∀ seid n ip, T.codec.buildsResponse seid n ip = true) {h : Header}
    (hm : (a, some h) ∈ s.asked) : ∃ r d, .recv r d ∈ s.hist ∧ d.src = a ∧ d.header = some h ∧
      s.answers T a h.sequence = ((acts r s.hist).countP fun a => a.op.isSend) ∧
      if isBroadcastRequest h.msgType then s.answers T a h.sequence = T.backends.length
      else s.answers T a h.sequence ≤ 1 := by
  obtain ⟨r, d, hz, hsrc, hh, hasks⟩ := hset.asked_received hr hl hm
  have hanswers := hset.answers_eq hr hl hbuilds hz hasks hsrc
  refine ⟨r, d, mem_receptions_iff.mp hz, hsrc, hh, hanswers, ?_⟩
  split
  next hb => rw [hanswers, hset.broadcast_sends hr hl hz hh hb]
  next hnot =>
    rw [hanswers]
    refine sends_le_one hr.sound.run (mem_receptions_iff.mp hz) fun h' hh' => ?_
    rw [hh, Option.some.injEq] at hh'
    simpa [← hh'] using hnot

def isDone : Task Op.Res Datagram → Bool
  | ⟨_, .done _⟩ => true
  | _ => false

lemma quiescent_of_all {c : Config Op.Res Proxy Datagram} (h : c.tasks.all isDone = true) :
    Quiescent c := by
  intro t ht
  have hdone := List.all_eq_true.mp h t ht
  obtain ⟨m, p⟩ := t
  cases p with
  | done x => rfl
  | act o k => cases hdone

lemma prompt_of_all {hist : History} (h : hist.all (fun e => !isLate e) = true) : Prompt hist := by
  intro i j q b e pre pre' src f _ hlook
  have hnow : pre'.now = 0 := by simpa [isLate] using List.all_eq_true.mp h _ hlook
  rw [hnow, Nat.zero_sub]
  decide

lemma answered_settled : Settled answered where
  toProxy := ⟨by decide +kernel, by decide +kernel, by decide +kernel⟩
  fromProxy := ⟨by decide +kernel, by decide +kernel, by decide +kernel⟩
  handled := quiescent_of_all (by decide +kernel)
  sends := allSendsSucceed_of_all (by decide +kernel)
  pool := by
    rw [← List.length_eq_zero_iff]
    decide +kernel
  prompt := prompt_of_all (by decide +kernel)

theorem answered_exactly_twice : ∃ r d, .recv r d ∈ answered.hist ∧ d.src = smfA ∧
    d.header = some ⟨.heartbeatRequest, none, 1⟩ ∧
    answered.answers twoBackends smfA 1 = ((acts r answered.hist).countP fun a => a.op.isSend) ∧
    answered.answers twoBackends smfA 1 = 2 :=
  answered_exactly answered_reach answered_lone answered_settled (fun _ _ _ => rfl)
    (h := ⟨.heartbeatRequest, none, 1⟩) (by decide +kernel)

end Testbed

end PfcpProxy
