import PfcpProxy.Pending

/-!
# Response correlation

Who receives the response to a request. Without collisions of sequence numbers every
response finds its request; with them, a response goes to whoever recorded its sequence
number last.
-/

namespace PfcpProxy

open AtomicTasks

variable {backends : List SocketAddr} {strategy : LoadBalancingStrategy} {h h₁ h₂ h₃ x y : History}
  {c : Config Op.Res Proxy Datagram} {i j r : ℕ} {d d' : Datagram} {q : UInt32}

/-- A lookup that finds an entry is answered with the origin recorded last. -/
lemma found_record {e : SocketAddr × Bool × ℕ × Bool} {pre : Proxy}
    (hr : Run proxy (Proxy.new backends strategy)
      (x ++ .act j ⟨.pendingLookupAndIncrement q, some e⟩ pre :: y) c) :
    ∃ i, lastRecord q x = some (i, e.1) := by
  obtain ⟨c₁, w, hr₁, rfl, hres⟩ := act_exec hr
  simp only [exec, PendingRequests.lookupAndIncrement] at hres
  obtain ⟨info, hget, rfl⟩ := Option.map_eq_some_iff.mp hres.symm
  exact pending_origin rfl hr₁ hget

lemma found_insert {e : SocketAddr × Bool × ℕ × Bool}
    (hr : Run proxy (Proxy.new backends strategy) h c)
    (hfound : ⟨.pendingLookupAndIncrement q, some e⟩ ∈ acts j h) :
    ∃ i b f, ⟨.pendingInsert q e.1 b f, ()⟩ ∈ acts i h := by
  obtain ⟨x, pre, y, rfl⟩ := exists_split_of_mem_acts hfound
  obtain ⟨i, hi⟩ := found_record hr
  obtain ⟨b, f, hm⟩ := mem_of_lastRecord hi
  exact ⟨i, b, f, by simp [hm]⟩

lemma sent_keeps {l : Acts} {p : Handler Unit} (hp : Path (handleMessage d) l p)
    {data : List UInt8} {dst : SocketAddr} (hsent : ⟨.sendTo data dst, true⟩ ∈ l)
    (hd : d.Asks q) (q' : UInt32) : ⟨.pendingRemove q', ()⟩ ∉ l := by
  intro hrem
  obtain ⟨hh, hhd, _, hreq⟩ := hd
  obtain ⟨l₁, l₂, rfl⟩ := List.append_of_mem hrem
  obtain ⟨hh', hhd', _, hcase⟩ := (handleMessage_conduct d).at_act hp
  rw [hhd, Option.some.injEq] at hhd'
  subst hhd'
  have hfailed : AllSendsFailed l₁ := by
    rcases hcase with ⟨_, hfailed, _⟩ | ⟨hresp, _⟩
    · exact hfailed
    · rw [hreq] at hresp
      cases hresp
  rw [List.mem_append, List.mem_cons] at hsent
  rcases hsent with hsent | hsent | hsent
  · exact hfailed data dst hsent
  · cases hsent
  · obtain ⟨l₃, l₄, rfl⟩ := List.append_of_mem hsent
    have hp' : Path (handleMessage d)
        ((l₁ ++ ⟨.pendingRemove q', ()⟩ :: l₃) ++ ⟨.sendTo data dst, true⟩ :: l₄) p := by
      simpa using hp
    obtain ⟨_, _, _, hkept, _⟩ := (handleMessage_conduct d).at_act hp'
    exact hkept q' (by simp)

/-! ### Distinct sequence numbers -/

/-- No two requests, of SMFs or UPFs, carry the same sequence number. -/
def DistinctSequences (h : History) : Prop :=
  ∀ i j d d' q, .recv i d ∈ h → .recv j d' ∈ h → d.Asks q → d'.Asks q → i = j

/-- A request that records `q` has not written the pending table before. -/
lemma insert_first {a : SocketAddr} {b f : Bool} {pre : Proxy}
    (hr : Run proxy (Proxy.new backends strategy) (x ++ .act i ⟨.pendingInsert q a b f, ()⟩ pre :: y) c) :
    ∃ d, .recv i d ∈ x ∧ d.Asks q ∧ a = d.src ∧ Unsent (acts i x) := by
  obtain ⟨d, hd, hh, hhd, rfl, rfl, hreq, _, _, hunsent⟩ := conduct_of_act hr
  exact ⟨d, hd, ⟨hh, hhd, rfl, hreq⟩, rfl, hunsent⟩

lemma DistinctSequences.insert_eq (hq : DistinctSequences h)
    (hr : Run proxy (Proxy.new backends strategy) h c) (hd : .recv r d ∈ h) (hask : d.Asks q)
    {a : SocketAddr} {b f : Bool} (hins : ⟨.pendingInsert q a b f, ()⟩ ∈ acts i h) :
    i = r ∧ a = d.src := by
  obtain ⟨x, pre, y, rfl⟩ := exists_split_of_mem_acts hins
  obtain ⟨d', hd', hask', rfl, _⟩ := insert_first hr
  have hmem := List.mem_append_left (.act i ⟨.pendingInsert q d'.src b f, ()⟩ pre :: y) hd'
  obtain rfl := hq i r d' d q hmem hd hask' hask
  obtain rfl := hr.recv_unique hd hmem
  exact ⟨rfl, rfl⟩

lemma DistinctSequences.recorded_once {a a' : SocketAddr} {b b' f f' : Bool} {pre : Proxy}
    (hq : DistinctSequences (x ++ .act r ⟨.pendingInsert q a b f, ()⟩ pre :: y))
    (hr : Run proxy (Proxy.new backends strategy)
      (x ++ .act r ⟨.pendingInsert q a b f, ()⟩ pre :: y) c) :
    ⟨.pendingInsert q a' b' f', ()⟩ ∉ acts i y := by
  intro hm
  obtain ⟨d, hd, hask, rfl, _⟩ := insert_first hr
  obtain ⟨u, pre', v, rfl⟩ := exists_split_of_mem_acts hm
  obtain ⟨rfl, _⟩ := hq.insert_eq (i := i) (a := a') (b := b') (f := f') hr
    (List.mem_append_left _ hd) hask (mem_acts_iff.mpr ⟨pre', by simp⟩)
  have hr' : Run proxy (Proxy.new backends strategy)
      ((x ++ .act i ⟨.pendingInsert q d.src b f, ()⟩ pre :: u) ++
        .act i ⟨.pendingInsert q a' b' f', ()⟩ pre' :: v) c := by simpa using hr
  obtain ⟨_, _, _, _, hunsent⟩ := insert_first hr'
  have hw := (hunsent ⟨.pendingInsert q d.src b f, ()⟩ (by simp)).1
  cases hw

lemma DistinctSequences.not_found_before {a : SocketAddr} {b f : Bool} {pre : Proxy}
    {e : SocketAddr × Bool × ℕ × Bool}
    (hq : DistinctSequences (x ++ .act r ⟨.pendingInsert q a b f, ()⟩ pre :: y))
    (hr : Run proxy (Proxy.new backends strategy)
      (x ++ .act r ⟨.pendingInsert q a b f, ()⟩ pre :: y) c) :
    ⟨.pendingLookupAndIncrement q, some e⟩ ∉ acts i x := by
  intro hm
  obtain ⟨d, hd, hask, rfl, hunsent⟩ := insert_first hr
  obtain ⟨c₁, hr₁⟩ := hr.of_append
  obtain ⟨k, b', f', hk⟩ := found_insert hr₁ hm
  obtain ⟨pre', hk'⟩ := mem_acts_iff.mp hk
  obtain ⟨rfl, _⟩ := hq.insert_eq (i := k) (a := e.1) (b := b') (f := f') hr
    (List.mem_append_left _ hd) hask (mem_acts_iff.mpr ⟨pre', List.mem_append_left _ hk'⟩)
  have hw := (hunsent _ hk).1
  cases hw

/-- Between the recording of a request that got away and the next lookup of its sequence
number, no handler touches the entry. -/
lemma DistinctSequences.untouched {a : SocketAddr} {b f : Bool} {pre : Proxy}
    (hq : DistinctSequences h) (hr : Run proxy (Proxy.new backends strategy) h c)
    (hh : h = h₁ ++ .act r ⟨.pendingInsert q a b f, ()⟩ pre :: (h₂ ++ h₃))
    (hfwd : ∃ data dst, ⟨.sendTo data dst, true⟩ ∈ acts r h)
    (hlook : ∀ i e, ⟨.pendingLookupAndIncrement q, e⟩ ∉ acts i h₂) :
    ∀ i, ∀ a ∈ acts i h₂, a.op.pendingKey ≠ some q := by
  intro i x hx hkey
  obtain ⟨o, res⟩ := x
  cases o with
  | pendingInsert q' a' b' f' =>
    cases res
    obtain rfl : q' = q := by simpa [Op.pendingKey] using hkey
    have hx' : ⟨.pendingInsert q' a' b' f', ()⟩ ∈ acts i (h₂ ++ h₃) := by
      rw [acts_append]
      exact List.mem_append_left _ hx
    exact (hh ▸ hq).recorded_once (hh ▸ hr) hx'
  | pendingLookupAndIncrement q' =>
    obtain rfl : q' = q := by simpa [Op.pendingKey] using hkey
    exact hlook i res hx
  | pendingRemove q' =>
    cases res
    obtain rfl : q' = q := by simpa [Op.pendingKey] using hkey
    obtain ⟨u, pre', v, rfl⟩ := exists_split_of_mem_acts hx
    have hsplit : h = (h₁ ++ .act r ⟨.pendingInsert q' a b f, ()⟩ pre :: u) ++
        .act i ⟨.pendingRemove q', ()⟩ pre' :: (v ++ h₃) := by simp [hh]
    obtain ⟨d', hdx, hh', hhd', rfl, hcase⟩ := conduct_of_act (hsplit ▸ hr)
    have hdm : .recv i d' ∈ h := by
      rw [hsplit]
      exact List.mem_append_left _ hdx
    rcases hcase with ⟨hreq, _⟩ | ⟨_, e, hfound, _⟩
    · -- the request itself: it was sent, so it does not roll back
      obtain ⟨d, hd, hask, _⟩ := insert_first (hh ▸ hr)
      have hd' : .recv r d ∈ h := by simp [hh, hd]
      obtain rfl := hq i r d' d _ hdm hd' ⟨hh', hhd', rfl, hreq⟩ hask
      obtain ⟨data, dst, hsent⟩ := hfwd
      obtain ⟨p, _, hpath⟩ := hr.handler_path hdm
      apply sent_keeps hpath hsent ⟨hh', hhd', rfl, hreq⟩ hh'.sequence
      rw [hsplit]
      exact mem_acts_append_cons _ _ _ _ _
    · -- a response: it would have found an entry before there was one
      rw [acts_append, List.mem_append] at hfound
      rcases hfound with hbefore | hsince
      · exact (hh ▸ hq).not_found_before (hh ▸ hr) hbefore
      · by_cases hri : r = i
        · subst hri
          rw [acts_act_self, List.mem_cons] at hsince
          rcases hsince with heq | hsince
          · cases heq
          · exact hlook r (some e) (by simp [hsince])
        · rw [acts_act_of_ne hri] at hsince
          exact hlook i (some e) (by simp [hsince])
  | _ => cases hkey

/-- Without collisions of sequence numbers no response is lost and none goes astray. -/
theorem no_response_lost {t : MsgType} {seid : Option UInt64}
    (hr : Run proxy (Proxy.new backends strategy) h c) (hq : DistinctSequences h)
    (hd : .recv r d ∈ h) (hhd : d.header = some ⟨t, seid, q⟩) (hreq : isRequest t = true)
    (hb : isBroadcastRequest t = false) (hfwd : ∃ dst, ⟨.sendTo d.data dst, true⟩ ∈ acts r h) :
    (∀ x y dst ok pre, h = x ++ .act r ⟨.sendTo d.data dst, ok⟩ pre :: y →
      ∃ b f, ⟨.pendingInsert q d.src b f, ()⟩ ∈ acts r x) ∧
    (∀ j d', .recv j d' ∈ h → d'.Answers q → ∀ data dst ok, ⟨.sendTo data dst, ok⟩ ∈ acts j h →
      data = d'.data ∧ dst = d.src) ∧
    (∀ h₁ h₂ h₃ j d' a b f e pre₁ pre₂,
      h = h₁ ++ .act r ⟨.pendingInsert q a b f, ()⟩ pre₁ ::
        (h₂ ++ .act j ⟨.pendingLookupAndIncrement q, e⟩ pre₂ :: h₃) →
      (∀ i e', ⟨.pendingLookupAndIncrement q, e'⟩ ∉ acts i h₂) →
      pre₂.now - pre₁.now < fromSecs 60 → .recv j d' ∈ h →
      (∃ f', e = some (d.src, false, 1, f')) ∧ ⟨.fetchAdd .responsesDropped, ()⟩ ∉ acts j h ∧
        (Finished c j → ∃ ok, ⟨.sendTo d'.data d.src, ok⟩ ∈ acts j h)) := by
  have hask : d.Asks q := ⟨_, hhd, rfl, hreq⟩
  refine ⟨?_, ?_, ?_⟩
  · -- a send comes after the insertion in the same handler
    rintro x y dst ok pre rfl
    exact sent_recorded hr hd hask
  · intro j d' hj hans data dst ok hsent
    obtain ⟨hdata, e, hfound, rfl⟩ := response_target hr hj hans hsent
    obtain ⟨i, b, f, hins⟩ := found_insert hr hfound
    exact ⟨hdata, (hq.insert_eq hr hd hask hins).2⟩
  · intro h₁ h₂ h₃ j d' a b f e pre₁ pre₂ hh hlook hage hj
    have hins : ⟨.pendingInsert q a b f, ()⟩ ∈ acts r h := by
      rw [hh]
      exact mem_acts_append_cons _ _ _ _ _
    obtain ⟨_, rfl⟩ := hq.insert_eq hr hd hask hins
    have hbf : b = false := by
      obtain ⟨d'', hd'', hc, hhc, _, _, _, hbb, _⟩ := conduct_of_act (hh ▸ hr)
      obtain rfl : d = d'' := hr.recv_unique hd (by rw [hh]; simp [hd''])
      rw [hhd, Option.some.injEq] at hhc
      subst hhc
      rw [hbb, hb]
    subst hbf
    have hfwd' : ∃ data dst, ⟨.sendTo data dst, true⟩ ∈ acts r h := ⟨d.data, hfwd⟩
    have huntouched := hq.untouched hr hh hfwd' hlook
    have hsplit : h = (h₁ ++ .act r ⟨.pendingInsert q d.src false f, ()⟩ pre₁ :: h₂) ++
        .act j ⟨.pendingLookupAndIncrement q, e⟩ pre₂ :: h₃ := by simp [hh]
    obtain ⟨c₂, w, hr₂, rfl, hres⟩ := act_exec (hsplit ▸ hr)
    have hentry := entry_of_insert hr₂ huntouched hage
    have he : e = some (d.src, false, 1, f) := by
      simpa [exec, PendingRequests.lookupAndIncrement, hentry] using hres
    subst he
    have hfound : ⟨.pendingLookupAndIncrement q, some (d.src, false, 1, f)⟩ ∈ acts j h := by
      rw [hsplit]
      exact mem_acts_append_cons _ _ _ _ _
    refine ⟨⟨f, rfl⟩, not_dropped_of_found hr hj hfound, fun hdone => ?_⟩
    have hans := answers_of_lookup hr hj hfound
    exact (response_sends hans).path (hdone.path hr hj) q _ hfound

theorem no_response_lost_established :
    ⟨.sendTo [0x21] smfA, true⟩ ∈ acts 2 answeredEarly.1 ∧
    ∀ data dst ok, ⟨.sendTo data dst, ok⟩ ∈ acts 2 answeredEarly.1 →
      data = [0x21] ∧ dst = smfA := by
  let d₀ := message .sessionEstablishmentRequest (some 7) 1 smfA
  let d₁ := message .sessionEstablishmentRequest (some 8) 2 smfB
  let d₂ := message .sessionEstablishmentResponse (some 7) 1 upfX
  have hrecv : receptions answeredEarly.1 = [(0, d₀), (1, d₁), (2, d₂)] := rfl
  have h₀ : .recv 0 d₀ ∈ answeredEarly.1 := mem_receptions_iff.mp (by simp [hrecv])
  have h₂ : .recv 2 d₂ ∈ answeredEarly.1 := mem_receptions_iff.mp (by simp [hrecv])
  have hans : d₂.Answers 1 := ⟨_, rfl, rfl, rfl⟩
  have hfwd : ⟨.sendTo d₀.data upfX, true⟩ ∈ acts 0 answeredEarly.1 := by decide +kernel
  have hq : DistinctSequences answeredEarly.1 := by
    -- the requests have the numbers 1 and 2
    have hnumber {i : ℕ} {d : Datagram} {q : UInt32} (hi : .recv i d ∈ answeredEarly.1)
        (hd : d.Asks q) : i = 0 ∧ q = 1 ∨ i = 1 ∧ q = 2 := by
      rw [← mem_receptions_iff, hrecv] at hi
      simp only [List.mem_cons, Prod.mk.injEq, List.not_mem_nil, or_false] at hi
      rcases hi with ⟨rfl, rfl⟩ | ⟨rfl, rfl⟩ | ⟨rfl, rfl⟩
      · obtain ⟨_, hh, rfl, _⟩ := hd
        cases hh
        exact .inl ⟨rfl, rfl⟩
      · obtain ⟨_, hh, rfl, _⟩ := hd
        cases hh
        exact .inr ⟨rfl, rfl⟩
      · exact absurd hans hd.not_answers
    intro i j d d' q hi hj hd hd'
    rcases hnumber hi hd with ⟨rfl, rfl⟩ | ⟨rfl, rfl⟩ <;>
      rcases hnumber hj hd' with ⟨rfl, hq⟩ | ⟨rfl, hq⟩
    · rfl
    · exact absurd hq (by decide)
    · exact absurd hq (by decide)
    · rfl
  refine ⟨by decide +kernel, ?_⟩
  exact (no_response_lost answeredEarly_run hq h₀ rfl rfl rfl ⟨upfX, hfwd⟩).2.1 2 d₂ h₂ hans

/-! ### Colliding sequence numbers -/

/-- A request of `a` under `q` was forwarded to `x`, and no answer of `x` has been passed on
to `a` since. -/
def Outstanding (h : History) (a : SocketAddr) (q : UInt32) (x : SocketAddr) : Prop :=
  ∃ h' k d pre h'', h = h' ++ .act k ⟨.sendTo d.data x, true⟩ pre :: h'' ∧
    .recv k d ∈ h' ∧ d.src = a ∧ d.Asks q ∧
    ∀ j d', .recv j d' ∈ h → d'.Answers q → d'.src = x → ⟨.sendTo d'.data a, true⟩ ∉ acts j h''

/-- Responses are only sent to parties the responder owes an answer. -/
def Correlated (h : History) : Prop :=
  ∀ h₁ j d data a ok pre h₂ q, h = h₁ ++ .act j ⟨.sendTo data a, ok⟩ pre :: h₂ →
    .recv j d ∈ h₁ → d.Answers q → Outstanding h₁ a q d.src

/-- Found in the table, but not sent on yet. -/
def InHand (h : History) (j : ℕ) (q : UInt32) : Prop :=
  (∃ e, ⟨.pendingLookupAndIncrement q, some e⟩ ∈ acts j h) ∧ ∀ a ∈ acts j h, a.op.isSend = false

/-- When a response of `x` finds an entry under `q`, the party that recorded `q` last waits
for `x`, and no other response of `x` under `q` is in hand. -/
def CleanLookups (h : History) : Prop :=
  ∀ h₁ j d e pre h₂ q, h = h₁ ++ .act j ⟨.pendingLookupAndIncrement q, some e⟩ pre :: h₂ →
    .recv j d ∈ h₁ →
    (∃ i a, lastRecord q h₁ = some (i, a) ∧ Outstanding h₁ a q d.src) ∧
    ∀ j' d', .recv j' d' ∈ h₁ → d'.Answers q → d'.src = d.src → ¬InHand h₁ j' q

/-- No address responds twice under a number, and a response that finds an entry comes from where a
request with its number was forwarded to, with no other party recording this number in between. -/
structure Orderly (h : History) : Prop where
  once : ∀ i j d d' q, .recv i d ∈ h → .recv j d' ∈ h → d.Answers q → d'.Answers q →
    d.src = d'.src → i = j
  answers : ∀ x j d e pre y q, h = x ++ .act j ⟨.pendingLookupAndIncrement q, some e⟩ pre :: y →
    .recv j d ∈ x → ∃ u k d₀ b f pre₀ v,
      x = u ++ .act k ⟨.pendingInsert q d₀.src b f, ()⟩ pre₀ :: v ∧ .recv k d₀ ∈ u ∧ d₀.Asks q ∧
      ⟨.sendTo d₀.data d.src, true⟩ ∈ acts k v ∧
      ∀ i a b' f', ⟨.pendingInsert q a b' f', ()⟩ ∈ acts i v → a = d₀.src

/-- The party that recorded a number last, where no other one has recorded it since. -/
lemma lastRecord_of_insert {a : SocketAddr} {b f : Bool} {pre : Proxy}
    (hy : ∀ i a' b' f', ⟨.pendingInsert q a' b' f', ()⟩ ∈ acts i y → a' = a) :
    ∃ i, lastRecord q (x ++ .act j ⟨.pendingInsert q a b f, ()⟩ pre :: y) = some (i, a) := by
  rw [List.append_cons, lastRecord_append_eq]
  cases hl : lastRecord q y with
  | none => exact ⟨j, by simp [lastRecord_snoc, Event.recordOf]⟩
  | some r =>
    obtain ⟨i, a'⟩ := r
    obtain ⟨b', f', hins⟩ := mem_of_lastRecord hl
    exact ⟨i, by rw [Option.some_or, hy i a' b' f' hins]⟩

lemma Orderly.cleanLookups (ho : Orderly h)
    (hr : Run proxy (Proxy.new backends strategy) h c) : CleanLookups h := by
  rintro x j d e pre y q rfl hd
  have hsub {i : ℕ} {d' : Datagram} (hd' : .recv i d' ∈ x) : .recv i d' ∈
      x ++ .act j ⟨.pendingLookupAndIncrement q, some e⟩ pre :: y := List.mem_append_left _ hd'
  obtain ⟨_, hh, hhd, hq, hresp, hunsent⟩ := conduct_of_recv hr (hsub hd)
  have hans : d.Answers q := ⟨hh, hhd, hq.symm, hresp⟩
  obtain ⟨u, k, d₀, b, f, pre₀, v, rfl, hk, hask, hsent, hsole⟩ := ho.answers x j d e pre y q rfl hd
  have hlast : ∃ i, lastRecord q (u ++ .act k ⟨.pendingInsert q d₀.src b f, ()⟩ pre₀ :: v) =
      some (i, d₀.src) := lastRecord_of_insert hsole
  obtain ⟨i, hlast⟩ := hlast
  refine ⟨⟨i, d₀.src, hlast, ?_⟩, fun j' d' hd' hans' hsrc ⟨⟨e', hfound⟩, _⟩ => ?_⟩
  · obtain ⟨v₁, pre₁, v₂, rfl⟩ := exists_split_of_mem_acts hsent
    refine ⟨u ++ .act k ⟨.pendingInsert q d₀.src b f, ()⟩ pre₀ :: v₁, k, d₀, pre₁, v₂, by simp,
      by simp [hk], rfl, hask, fun j' d' hd' hans' hsrc hpassed => ?_⟩
    obtain rfl := ho.once j' j d' d q (hsub hd') (hsub hd) hans' hans hsrc
    obtain ⟨pre', hmem⟩ := mem_acts_iff.mp hpassed
    have hsend := (hunsent ⟨.sendTo d'.data d₀.src, true⟩
      (mem_acts_iff.mpr ⟨pre', by simp [hmem]⟩)).2
    cases hsend
  · obtain rfl := ho.once j' j d' d q (hsub hd') (hsub hd) hans' hans hsrc
    have hlook := (hunsent _ hfound).1
    cases hlook

lemma response_send_cases {data : List UInt8} {a : SocketAddr} {ok : Bool} {pre : Proxy}
    (hr : Run proxy (Proxy.new backends strategy) (x ++ .act j ⟨.sendTo data a, ok⟩ pre :: y) c)
    (hd : .recv j d ∈ x ++ .act j ⟨.sendTo data a, ok⟩ pre :: y) (hans : d.Answers q) :
    .recv j d ∈ x ∧ (∀ b ∈ acts j x, b.op.isSend = false) ∧
      ∃ e, ⟨.pendingLookupAndIncrement q, some e⟩ ∈ acts j x ∧ a = e.1 := by
  obtain ⟨hd', hh, hhd, _, _, hcase⟩ := conduct_of_recv hr hd
  obtain ⟨hh', hhd', rfl, hresp⟩ := hans
  rw [hhd, Option.some.injEq] at hhd'
  subst hhd'
  rcases hcase with ⟨hreq, _⟩ | ⟨_, hsend, hfound⟩
  · rw [hresp] at hreq
    cases hreq
  · exact ⟨hd', hsend, hfound⟩

/-- While a response is in hand, no other response of its source is sent. -/
lemma CleanLookups.none_overtakes {e : SocketAddr × Bool × ℕ × Bool} {pre : Proxy}
    (hclean : CleanLookups (x ++ .act j ⟨.pendingLookupAndIncrement q, some e⟩ pre :: (y ++ h₂)))
    (hr : Run proxy (Proxy.new backends strategy)
      (x ++ .act j ⟨.pendingLookupAndIncrement q, some e⟩ pre :: (y ++ h₂)) c)
    (hd : .recv j d ∈ x) (hans : d.Answers q) (hhand : ∀ b ∈ acts j y, b.op.isSend = false)
    (hd' : .recv i d' ∈ x ++ .act j ⟨.pendingLookupAndIncrement q, some e⟩ pre :: (y ++ h₂))
    (hans' : d'.Answers q) (hsrc : d'.src = d.src) (data : List UInt8) (a : SocketAddr) (ok : Bool) :
    ⟨.sendTo data a, ok⟩ ∉ acts i y := by
  intro hsent
  have hij : i ≠ j := by
    rintro rfl
    exact absurd (hhand _ hsent) (by simp [Op.isSend])
  have hx : ∀ b ∈ acts j x, b.op.isSend = false := by
    obtain ⟨hh, _, hI⟩ := (conduct_of_recv hr (List.mem_append_left _ hd)).2
    exact fun b hb => (hI.2.2 b hb).2
  obtain ⟨y₁, pre', y₂, rfl⟩ := exists_split_of_mem_acts hsent
  have hr' : Run proxy (Proxy.new backends strategy)
      ((x ++ .act j ⟨.pendingLookupAndIncrement q, some e⟩ pre :: y₁) ++
        .act i ⟨.sendTo data a, ok⟩ pre' :: (y₂ ++ h₂)) c := by simpa using hr
  obtain ⟨hd₁, hunsent, e', hfound, _⟩ := response_send_cases hr' (by simpa using hd') hans'
  rw [acts_append, acts_act_of_ne hij.symm, List.mem_append] at hfound
  rcases hfound with hfound | hfound
  · -- found before: then it was in hand when `j` looked up
    have hd'x : .recv i d' ∈ x := by
      obtain ⟨z, pre'', z', rfl⟩ := exists_split_of_mem_acts hfound
      have hr'' : Run proxy (Proxy.new backends strategy)
          (z ++ .act i ⟨.pendingLookupAndIncrement q, some e'⟩ pre'' :: (z' ++
            .act j ⟨.pendingLookupAndIncrement q, some e⟩ pre :: (y₁ ++
              .act i ⟨.sendTo data a, ok⟩ pre' :: (y₂ ++ h₂)))) c := by simpa using hr
      exact List.mem_append_left _ (conduct_of_recv hr'' (by simpa using hd')).1
    refine (hclean x j d e pre _ q rfl hd).2 i d' hd'x hans' hsrc ⟨⟨e', hfound⟩, ?_⟩
    exact fun b hb => hunsent b (by simp [hb])
  · -- found since: then `j` was in hand when it looked up
    obtain ⟨z, pre'', z', rfl⟩ := exists_split_of_mem_acts hfound
    have hsplit : x ++ .act j ⟨.pendingLookupAndIncrement q, some e⟩ pre :: ((z ++
        .act i ⟨.pendingLookupAndIncrement q, some e'⟩ pre'' :: z') ++
          .act i ⟨.sendTo data a, ok⟩ pre' :: y₂ ++ h₂) =
        (x ++ .act j ⟨.pendingLookupAndIncrement q, some e⟩ pre :: z) ++
          .act i ⟨.pendingLookupAndIncrement q, some e'⟩ pre'' :: (z' ++
            .act i ⟨.sendTo data a, ok⟩ pre' :: (y₂ ++ h₂)) := by simp
    have hd'z := (conduct_of_recv (hsplit ▸ hr) (hsplit ▸ hd')).1
    refine (hclean _ i d' e' pre'' _ q hsplit hd'z).2 j d (List.mem_append_left _ hd) hans hsrc.symm
      ⟨⟨e, mem_acts_append_cons _ _ _ _ _⟩, ?_⟩
    intro b hb
    rw [acts_append, acts_act_self, List.mem_append, List.mem_cons] at hb
    rcases hb with hb | rfl | hb
    · exact hx b hb
    · rfl
    · exact hhand b (by simp [hb])

/-- Where all lookups are clean, every response goes to a party that waits for it. -/
theorem response_correlation (hr : Run proxy (Proxy.new backends strategy) h c)
    (hclean : CleanLookups h) : Correlated h := by
  rintro h₁ j d data a ok pre h₂ q rfl hd hans
  obtain ⟨_, hunsent, e, hfound, rfl⟩ := response_send_cases hr (List.mem_append_left _ hd) hans
  obtain ⟨x₁, pre', x₂, rfl⟩ := exists_split_of_mem_acts hfound
  have hsplit : (x₁ ++ .act j ⟨.pendingLookupAndIncrement q, some e⟩ pre' :: x₂) ++
      .act j ⟨.sendTo data e.1, ok⟩ pre :: h₂ =
      x₁ ++ .act j ⟨.pendingLookupAndIncrement q, some e⟩ pre' ::
        (x₂ ++ .act j ⟨.sendTo data e.1, ok⟩ pre :: h₂) := by simp
  rw [hsplit] at hr hclean
  have hd₁ : .recv j d ∈ x₁ := by
    apply (conduct_of_recv hr _).1
    rw [← hsplit]
    exact List.mem_append_left _ hd
  obtain ⟨⟨i, a, hlast, hout⟩, _⟩ := hclean x₁ j d e pre' _ q rfl hd₁
  obtain ⟨i', hlast'⟩ := found_record hr
  rw [hlast, Option.some.injEq, Prod.mk.injEq] at hlast'
  obtain ⟨_, rfl⟩ := hlast'
  obtain ⟨h', k, dk, prek, h'', hx₁, hk, hsrc, hask, hno⟩ := hout
  refine ⟨h', k, dk, prek, h'' ++ .act j ⟨.pendingLookupAndIncrement q, some e⟩ pre' :: x₂,
    by rw [hx₁]; simp, hk, hsrc, hask, ?_⟩
  intro j' d' hj' hans' hsrc' hsent
  have hj'h := List.mem_append_left (.act j ⟨.sendTo data e.1, ok⟩ pre :: h₂) hj'
  rw [hsplit] at hj'h
  rw [acts_append, List.mem_append] at hsent
  rcases hsent with hsent | hsent
  · -- passed on before the lookup
    have hj'x : .recv j' d' ∈ x₁ := by
      obtain ⟨z, pre'', z', rfl⟩ := exists_split_of_mem_acts hsent
      have hz : x₁ = (h' ++ .act k ⟨.sendTo dk.data d.src, true⟩ prek :: z) ++
          .act j' ⟨.sendTo d'.data e.1, true⟩ pre'' :: z' := by rw [hx₁]; simp
      rw [hz, List.append_assoc] at hr hj'h
      rw [hz]
      exact List.mem_append_left _ (conduct_of_recv hr hj'h).1
    exact hno j' d' hj'x hans' hsrc' hsent
  · -- passed on since
    have hsent' : ⟨.sendTo d'.data e.1, true⟩ ∈ acts j' x₂ := by
      by_cases hjj : j = j'
      · subst hjj
        simpa using hsent
      · rwa [acts_act_of_ne hjj] at hsent
    refine hclean.none_overtakes hr hd₁ hans ?_ hj'h hans' hsrc' _ _ _ hsent'
    exact fun b hb => hunsent b (by simp [hb])

/-- Finding lookups, as a test on entries of a history. -/
def isFound : Event Op.Res Proxy Datagram Env → Bool
  | .act _ ⟨.pendingLookupAndIncrement _, some _⟩ _ => true
  | _ => false

def isRecord : Event Op.Res Proxy Datagram Env → Bool
  | .act _ ⟨.pendingInsert _ _ _ _, _⟩ _ => true
  | _ => false

lemma answeredEstablishment_orderly : Orderly answeredEstablishment.1 := by
  let d₀ := message .sessionEstablishmentRequest (some 7) 1 smfA
  let d₁ := message .sessionEstablishmentResponse (some 7) 1 upfX
  have hrecv : receptions answeredEstablishment.1 = [(0, d₀), (1, d₁)] := rfl
  have hask : d₀.Asks 1 := ⟨_, rfl, rfl, rfl⟩
  constructor
  · intro i j d d' q hi hj hd hd' _
    have hresponse {i : ℕ} {d : Datagram} (hi : .recv i d ∈ answeredEstablishment.1)
        (hd : d.Answers q) : i = 1 := by
      rw [← mem_receptions_iff, hrecv] at hi
      simp only [List.mem_cons, Prod.mk.injEq, List.not_mem_nil, or_false] at hi
      rcases hi with ⟨rfl, rfl⟩ | ⟨rfl, rfl⟩
      · obtain ⟨_, hhd, _, hresp⟩ := hd
        cases hhd
        cases hresp
      · rfl
    rw [hresponse hi hd, hresponse hj hd']
  · intro x j d e pre y q hsplit hd
    -- the history before the only lookup that finds an entry
    have hat : actAt answeredEstablishment.1 16 =
        some (1, ⟨.pendingLookupAndIncrement 1, some (smfA, false, 1, false)⟩) := by decide +kernel
    have hnone : (answeredEstablishment.1.take 16).all (fun e => !isFound e) = true := by
      decide +kernel
    have hrest : (answeredEstablishment.1.drop 17).all (fun e => !isFound e) = true := by
      decide +kernel
    obtain ⟨p₀, hlook⟩ := split_at hat
    obtain ⟨rfl, hact, rfl⟩ := split_unique (hsplit.symm.trans hlook) hnone hrest rfl
    simp only [Event.act.injEq, Act.mk.injEq, Op.pendingLookupAndIncrement.injEq] at hact
    obtain ⟨rfl, ⟨rfl, hres⟩, rfl⟩ := hact
    obtain rfl : d = d₁ := by
      have hd' : .recv 1 d ∈ answeredEstablishment.1 := List.mem_of_mem_take hd
      simpa [← mem_receptions_iff, hrecv] using hd'
    have hat' : actAt (answeredEstablishment.1.take 16) 9 =
        some (0, ⟨.pendingInsert 1 smfA false false, ()⟩) := by decide +kernel
    have hd₀ : (0, d₀) ∈ receptions ((answeredEstablishment.1.take 16).take 9) := by decide +kernel
    have hsent : ⟨.sendTo d₀.data upfX, true⟩ ∈ acts 0 ((answeredEstablishment.1.take 16).drop 10) := by
      decide +kernel
    have hquiet : ((answeredEstablishment.1.take 16).drop 10).all (fun e => !isRecord e) = true := by
      decide +kernel
    obtain ⟨p₁, hins⟩ := split_at hat'
    refine ⟨_, 0, d₀, false, false, p₁, _, hins, mem_receptions_iff.mp hd₀, hask, hsent, ?_⟩
    intro i a b' f' hother
    exact absurd hother (notMem_acts_of_all hquiet (fun _ => rfl))

theorem response_correlation_established : Correlated answeredEstablishment.1 :=
  response_correlation answeredEstablishment_run
    (answeredEstablishment_orderly.cleanLookups answeredEstablishment_run)

/-- Two SMFs that use the same sequence number, and the response to the first of them. -/
def collidingEstablishments : History × Config Op.Res Proxy Datagram :=
  played [upfX, upfY] .roundRobin (oneByOne 0
    [message .sessionEstablishmentRequest (some 7) 1 smfA,
      message .sessionEstablishmentRequest (some 8) 1 smfB,
      message .sessionEstablishmentResponse (some 7) 1 upfX])

/-- The response to the first SMF is sent to the second. -/
theorem response_correlation_fails :
    Run proxy (Proxy.new [upfX, upfY] .roundRobin) collidingEstablishments.1
      collidingEstablishments.2 ∧ ¬Correlated collidingEstablishments.1 := by
  refine ⟨played_run _ _ _, fun hcorr => ?_⟩
  let d₂ := message .sessionEstablishmentResponse (some 7) 1 upfX
  have hrecv : receptions collidingEstablishments.1 =
      [(0, message .sessionEstablishmentRequest (some 7) 1 smfA),
        (1, message .sessionEstablishmentRequest (some 8) 1 smfB), (2, d₂)] := rfl
  have hsent : ⟨.sendTo [0x21] smfB, true⟩ ∈ acts 2 collidingEstablishments.1 := by decide
  have hnot : ⟨.sendTo [0x21] upfX, true⟩ ∉ acts 1 collidingEstablishments.1 := by decide
  obtain ⟨x, pre, y, hsplit⟩ := exists_split_of_mem_acts hsent
  have hd : .recv 2 d₂ ∈ x := by
    have hr : Run proxy (Proxy.new [upfX, upfY] .roundRobin) collidingEstablishments.1
      collidingEstablishments.2 := played_run _ _ _
    apply (conduct_of_recv (hsplit ▸ hr) _).1
    rw [← hsplit, ← mem_receptions_iff, hrecv]
    simp
  obtain ⟨h', k, d, pre', h'', hx, hk, hsrc, _⟩ :=
    hcorr x 2 d₂ _ _ _ _ _ 1 hsplit hd ⟨_, rfl, rfl, rfl⟩
  have hk' : .recv k d ∈ collidingEstablishments.1 := by
    rw [hsplit, hx]
    simp [hk]
  have hfwd : ⟨.sendTo d.data upfX, true⟩ ∈ acts k collidingEstablishments.1 := by
    rw [hsplit, hx, acts_append]
    exact List.mem_append_left _ (mem_acts_append_cons _ _ _ _ _)
  rw [← mem_receptions_iff, hrecv] at hk'
  simp only [List.mem_cons, Prod.mk.injEq, List.not_mem_nil, or_false] at hk'
  rcases hk' with ⟨rfl, rfl⟩ | ⟨rfl, rfl⟩ | ⟨rfl, rfl⟩
  · exact absurd hsrc (by decide)
  · exact hnot hfwd
  · exact absurd hsrc (by decide)

end PfcpProxy
