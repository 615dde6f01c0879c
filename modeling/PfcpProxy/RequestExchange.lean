import PfcpProxy.BroadcastCompletion
import PfcpProxy.Association
import PfcpProxy.Origins
import PfcpProxy.Workload

/-!
# Exchanges

A request, forwarded to one backend or to all, and the responses to its copies. However the
handlers of the request and of the responses are interleaved, every response finds the entry of
the request, and is forwarded to where that came from.
-/

namespace PfcpProxy

open AtomicTasks

/-- A request whose sequence number no other request has, over a fixed pool and with successful
sends; there are at no time more responses than copies of it have been sent, and they are looked
up within 60 s of its record. -/
structure RequestExchange (p₀ : Proxy) (hist : History) (r : ℕ) (d : Datagram) (q : UInt32) :
    Prop where
  received : .recv r d ∈ hist
  asks : d.Asks q
  sole : ∀ j d', .recv j d' ∈ hist → d'.Asks q → j = r
  fixed : ∀ x y, hist = x ++ y → pooled p₀ x = p₀.upfPool.addrs
  timely : ∀ i j a b f e pre pre', .act i ⟨.pendingInsert q a b f, ()⟩ pre ∈ hist →
    .act j ⟨.pendingLookupAndIncrement q, e⟩ pre' ∈ hist → pre'.now - pre.now < fromSecs 60
  sends : AllSendsSucceed hist
  causal : ∀ x y, hist = x ++ y → ((receptions x).countP fun z => z.2.responds q) ≤
    (acts r x).countP fun a => a.op.isSend

lemma length_lookups_eq (q : UInt32) (hist : History) :
    (lookups q hist).length = totalCost (Op.lookups q) (allActs hist) := by
  induction hist using List.reverseRecOn with
  | nil => rfl
  | append_singleton hist e ih =>
    rw [lookups_append, List.length_append, allActs_append, totalCost_append, ih]
    congr 1
    cases e with
    | recv i d => rfl
    | env ev pre => rfl
    | act i a pre =>
      obtain ⟨o, res⟩ := a
      by_cases ho : o = .pendingLookupAndIncrement q
      · subst ho
        rw [lookups_act_self]
        simp [allActs, totalCost, Op.lookups]
      · rw [lookups_act_of_ne ho]
        simp [allActs, totalCost, Op.lookups, ho]

namespace RequestExchange

variable {p₀ : Proxy} {hist x y : History} {c : Config Op.Res Proxy Datagram} {r j : ℕ}
  {d d' : Datagram} {q : UInt32} {pre : Proxy} {e : Found}

/-- Copies of the request are sent to each entry of the pool, or once. -/
lemma sends_le (hx : RequestExchange p₀ hist r d q) (hr : Run proxy p₀ hist c) {h : Header}
    (hd : d.header = some h) : ((acts r hist).countP fun a => a.op.isSend) ≤
      mostCopies (max p₀.upfPool.addrs.length 1) h.msgType := by
  have hpools : ∀ a ∈ acts r hist, PoolsAtMost (max p₀.upfPool.addrs.length 1) a := by
    intro a ha
    obtain ⟨x, pre, y, hsplit⟩ := exists_split_of_mem_acts ha
    rw [hsplit] at hr
    obtain ⟨c₁, w, hr₁, rfl, hres⟩ := act_exec hr
    have hpool : c₁.shared.upfPool.backends.length ≤ max p₀.upfPool.addrs.length 1 := by
      rw [← UpfPool.length_addrs, run_addrs hr₁, hx.fixed x _ hsplit]
      exact Nat.le_max_left _ _
    obtain ⟨o, res⟩ := a
    simp only at hres
    subst hres
    cases o with
    | poolHealthyBackends => exact (List.length_filter_le _ _).trans hpool
    | poolAllBackends => exact hpool
    | _ => trivial
  have hsends := sends_le_mostSends hr (Nat.le_max_right _ 1) hx.received hpools
  rwa [mostSends, hd] at hsends

lemma sent_before (hx : RequestExchange p₀ (x ++ y) r d q) (hj : .recv j d' ∈ x)
    (hans : d'.Answers q) : ∃ data dst, ⟨.sendTo data dst, true⟩ ∈ acts r x := by
  obtain ⟨h, hd, rfl, hresp⟩ := hans
  have hpos : 0 < (receptions x).countP fun z => z.2.responds h.sequence := by
    rw [List.countP_pos_iff]
    exact ⟨(j, d'), mem_receptions_iff.mpr hj, by simp [Datagram.responds, hd, hresp]⟩
  obtain ⟨⟨o, res⟩, ha, hsend⟩ :=
    List.countP_pos_iff.mp (Nat.lt_of_lt_of_le hpos (hx.causal x y rfl))
  cases o with
  | sendTo data dst =>
    cases res with
    | true => exact ⟨data, dst, ha⟩
    | false =>
      have hfail : ⟨.sendTo data dst, false⟩ ∈ acts r (x ++ y) := by
        rw [acts_append]
        exact List.mem_append_left _ ha
      exact absurd hfail (hx.sends r data dst)
  | _ => cases hsend

lemma exists_insert (hx : RequestExchange p₀ hist r d q) (hr : Run proxy p₀ hist c)
    (hlook : (j, e) ∈ lookups q hist) :
    ∃ x pre y b f, hist = x ++ .act r ⟨.pendingInsert q d.src b f, ()⟩ pre :: y := by
  obtain ⟨d', hj, hans⟩ := BroadcastExchange.lookup_answers hr hlook
  rw [← List.append_nil hist] at hx
  obtain ⟨data, dst, hsent⟩ := hx.sent_before hj hans
  obtain ⟨u, pre, v, rfl⟩ := exists_split_of_mem_acts hsent
  rw [List.append_nil] at hx
  obtain ⟨b, f, hins⟩ := sent_recorded hr hx.received hx.asks
  obtain ⟨x, pre', y, rfl⟩ := exists_split_of_mem_acts hins
  exact ⟨x, pre', y ++ .act r ⟨.sendTo data dst, true⟩ pre :: v, b, f, by simp⟩

/-- A removal is made by a response that has observed as many responses as copies are sent. -/
lemma remover (hx : RequestExchange p₀ hist r d q) (hr : Run proxy p₀ hist c)
    (hpos : 0 < (acts r hist).countP fun a => a.op.isSend) {h : Header} (hd : d.header = some h)
    (hsplit : hist = x ++ .act j ⟨.pendingRemove q, ()⟩ pre :: y) :
    ∃ r', (j, some r') ∈ lookups q x ∧ (r'.2.1 = isBroadcastRequest h.msgType → 0 < r'.2.2.1 →
      ((acts r hist).countP fun a => a.op.isSend) ≤ r'.2.2.1) := by
  have hsends := hx.sends_le hr hd
  have hrecv := hx.received
  subst hsplit
  obtain ⟨d', hd', hh, hhd, hq, hcase⟩ := conduct_of_act hr
  rcases hcase with ⟨hreq, hfailed, _⟩ | ⟨hresp, r', hfound, _⟩
  · -- the request itself, which has sent a copy: it does not roll back
    obtain rfl := hx.sole j d' (List.mem_append_left _ hd') ⟨hh, hhd, hq.symm, hreq⟩
    obtain ⟨⟨o, res⟩, ha, hsend⟩ := List.countP_pos_iff.mp hpos
    obtain ⟨p, _, hpath⟩ := hr.handler_path hrecv
    cases o with
    | sendTo data dst =>
      cases res with
      | true => exact absurd (by simp) (sent_keeps hpath ha hx.asks q)
      | false => exact absurd ha (hx.sends j data dst)
    | _ => cases hsend
  · refine ⟨r', mem_lookups_iff.mpr hfound, fun hb hcount => hsends.trans ?_⟩
    unfold mostCopies
    split
    next hbroadcast =>
      obtain ⟨p, _, hpath⟩ := hr.handler_path (List.mem_append_left _ hd')
      rw [acts_append, acts_act_self] at hpath
      have hreached := (response_relayed ⟨hh, hhd, hq.symm, hresp⟩).at_act hpath rfl
      obtain ⟨bs, hread, hle⟩ := hreached r' (by simpa using hfound) (hb.trans hbroadcast)
      rw [List.nil_append] at hread
      obtain ⟨w, pre', z, rfl⟩ := exists_split_of_mem_acts hread
      rw [List.append_assoc] at hr hx
      obtain ⟨c₁, _, hr₁, rfl, hres⟩ := act_exec hr
      obtain rfl : bs = c₁.shared.upfPool.backends := hres
      have hpool : c₁.shared.upfPool.backends.length = p₀.upfPool.addrs.length := by
        rw [← UpfPool.length_addrs, run_addrs hr₁, hx.fixed w _ rfl]
      omega
    next => omega

section Recorded

variable {b f : Bool}
  (hx : RequestExchange p₀ (x ++ .act r ⟨.pendingInsert q d.src b f, ()⟩ pre :: y) r d q)
  (hr : Run proxy p₀ (x ++ .act r ⟨.pendingInsert q d.src b f, ()⟩ pre :: y) c)

include hx hr

lemma not_insert_after {a : SocketAddr} {b' f' : Bool} :
    ⟨.pendingInsert q a b' f', ()⟩ ∉ acts j y := by
  intro hm
  obtain ⟨y₁, pre', y₂, rfl⟩ := exists_split_of_mem_acts hm
  rw [← List.cons_append, ← List.append_assoc] at hr hx
  obtain ⟨d', hd', hh, hhd, hq, _, hreq, _, _, hunsent⟩ := conduct_of_act hr
  have hjr := hx.sole j d' (List.mem_append_left _ hd') ⟨hh, hhd, hq.symm, hreq⟩
  subst hjr
  have hwrites := (hunsent ⟨.pendingInsert q d.src b f, ()⟩ (by simp)).1
  cases hwrites

lemma lookups_before : lookups q x = [] := by
  rw [List.eq_nil_iff_forall_not_mem]
  rintro ⟨j, e⟩ hlook
  obtain ⟨c₁, hr₁⟩ := hr.of_append
  obtain ⟨d', hj, hans⟩ := BroadcastExchange.lookup_answers hr₁ hlook
  obtain ⟨data, dst, hsent⟩ := hx.sent_before hj hans
  obtain ⟨_, _, _, _, _, _, _, _, _, hunsent⟩ := conduct_of_act hr
  have hsend := (hunsent _ hsent).2
  cases hsend

lemma lookups_eq (z : History) :
    lookups q (x ++ .act r ⟨.pendingInsert q d.src b f, ()⟩ pre :: z) = lookups q z := by
  rw [lookups_append, hx.lookups_before hr]
  rfl

/-- Up to a lookup nothing was removed, if copies were still to be answered after a removal. -/
lemma not_removed {z₁ z₂ : History} {pre' : Proxy}
    (hy : y = z₁ ++ .act j ⟨.pendingLookupAndIncrement q, e⟩ pre' :: z₂)
    (hremoved : (∃ i, ⟨.pendingRemove q, ()⟩ ∈ acts i z₁) →
      ((acts r (x ++ .act r ⟨.pendingInsert q d.src b f, ()⟩ pre :: y)).countP
        fun a => a.op.isSend) ≤ (lookups q z₁).length) (i : ℕ) :
    ⟨.pendingRemove q, ()⟩ ∉ acts i z₁ := by
  intro hm
  have hle := hremoved ⟨i, hm⟩
  have hsplit : x ++ .act r ⟨.pendingInsert q d.src b f, ()⟩ pre :: y =
      (x ++ .act r ⟨.pendingInsert q d.src b f, ()⟩ pre ::
        (z₁ ++ [.act j ⟨.pendingLookupAndIncrement q, e⟩ pre'])) ++ z₂ := by simp [hy]
  have hcausal := hx.causal _ _ hsplit
  have hlookups := hx.lookups_eq hr (z₁ ++ [.act j ⟨.pendingLookupAndIncrement q, e⟩ pre'])
  rw [hsplit] at hr hle
  obtain ⟨c₁, hr₁⟩ := hr.of_append
  have hreceived := lookups_le_received (q := q) hr₁
  rw [← length_lookups_eq, hlookups, lookups_append, lookups_act_self, List.length_append,
    List.length_singleton] at hreceived
  rw [acts_append, List.countP_append] at hle
  omega

/-- A lookup behind the record observes the next count. -/
lemma lookup_answer {z₁ z₂ : History} {pre' : Proxy}
    (hy : y = z₁ ++ .act j ⟨.pendingLookupAndIncrement q, e⟩ pre' :: z₂)
    (hnot : ∀ i, ⟨.pendingRemove q, ()⟩ ∉ acts i z₁) :
    e = some (d.src, b, (lookups q z₁).length + 1, f) := by
  subst hy
  have hx' := hx
  have hr' := hr
  rw [← List.cons_append, ← List.append_assoc] at hr
  obtain ⟨c₁, w, hr₁, rfl, hres⟩ := act_exec hr
  have hentry := entry_counted hr₁ (fun i a ha hkey => ?_)
    (hx'.timely r j d.src b f e pre c₁.shared (by simp) (by simp))
  · simp only [exec, PendingRequests.lookupAndIncrement, hentry, Option.map_some] at hres
    exact hres
  · obtain ⟨o, res⟩ := a
    cases o with
    | pendingInsert q' a' b' f' =>
      obtain rfl : q' = q := by simpa [Op.pendingKey] using hkey
      have hins : ⟨.pendingInsert q' a' b' f', res⟩ ∈
          acts i (z₁ ++ .act j ⟨.pendingLookupAndIncrement q', e⟩ c₁.shared :: z₂) := by
        rw [acts_append]
        exact List.mem_append_left _ ha
      exact absurd hins (hx'.not_insert_after hr')
    | pendingLookupAndIncrement q' =>
      obtain rfl : q' = q := by simpa [Op.pendingKey] using hkey
      rfl
    | pendingRemove q' =>
      obtain rfl : q' = q := by simpa [Op.pendingKey] using hkey
      exact absurd ha (hnot i)
    | _ => cases hkey

/-- The lookups made so far have found the record, and it is removed only when there is one for
each copy that is sent. -/
lemma observed (hb : ∀ h, d.header = some h → b = isBroadcastRequest h.msgType) {z₁ z₂ : History}
    (hy : y = z₁ ++ z₂) :
    (∀ j e, (j, e) ∈ lookups q z₁ → ∃ k, 0 < k ∧ k ≤ (lookups q z₁).length ∧
      e = some (d.src, b, k, f)) ∧
    ((∃ i, ⟨.pendingRemove q, ()⟩ ∈ acts i z₁) →
      ((acts r (x ++ .act r ⟨.pendingInsert q d.src b f, ()⟩ pre :: y)).countP
        fun a => a.op.isSend) ≤ (lookups q z₁).length) := by
  induction z₁ using List.reverseRecOn generalizing z₂ with
  | nil =>
    refine ⟨by simp [lookups], ?_⟩
    rintro ⟨i, hi⟩
    exact absurd hi (by simp)
  | append_singleton z ev ih =>
    have hsplit : y = z ++ ev :: z₂ := by simp [hy]
    obtain ⟨hfound, hremoved⟩ := ih hsplit
    have hkeep (hlook : lookups q [ev] = []) (hrem : ∀ i, ⟨.pendingRemove q, ()⟩ ∉ acts i [ev]) :
        (∀ j e, (j, e) ∈ lookups q (z ++ [ev]) → ∃ k, 0 < k ∧
          k ≤ (lookups q (z ++ [ev])).length ∧ e = some (d.src, b, k, f)) ∧
        ((∃ i, ⟨.pendingRemove q, ()⟩ ∈ acts i (z ++ [ev])) →
          ((acts r (x ++ .act r ⟨.pendingInsert q d.src b f, ()⟩ pre :: y)).countP
            fun a => a.op.isSend) ≤ (lookups q (z ++ [ev])).length) := by
      rw [lookups_append, hlook, List.append_nil]
      refine ⟨hfound, ?_⟩
      rintro ⟨i, hi⟩
      exact hremoved ⟨i, by simpa [hrem i] using hi⟩
    cases ev with
    | recv i d' => exact hkeep rfl fun i => by simp
    | env ev pre' => exact hkeep rfl fun i => by simp
    | act i a pre' =>
      obtain ⟨o, res⟩ := a
      by_cases hlook : o = .pendingLookupAndIncrement q
      · subst hlook
        have hnot := hx.not_removed hr hsplit hremoved
        obtain rfl := hx.lookup_answer hr hsplit hnot
        rw [lookups_append, lookups_act_self, List.length_append, List.length_singleton]
        constructor
        · intro j e hj
          rcases List.mem_append.mp hj with hj | hj
          · obtain ⟨k, hk, hle, he⟩ := hfound j e hj
            exact ⟨k, hk, by omega, he⟩
          · cases List.mem_singleton.mp hj
            exact ⟨_, Nat.succ_pos _, Nat.le_refl _, rfl⟩
        · rintro ⟨j, hj⟩
          rw [acts_append, List.mem_append] at hj
          rcases hj with hj | hj
          · exact absurd hj (hnot j)
          · cases eq_of_mem_acts_singleton hj
      by_cases hrem : o = .pendingRemove q
      · subst hrem
        rw [lookups_append, lookups_act_of_ne (by simp), List.append_nil]
        refine ⟨hfound, fun _ => ?_⟩
        rcases Nat.eq_zero_or_pos ((acts r (x ++ .act r ⟨.pendingInsert q d.src b f, ()⟩ pre ::
          y)).countP fun a => a.op.isSend) with hzero | hpos
        · omega
        · obtain ⟨h, hd, _⟩ := hx.asks
          have hwhole : x ++ .act r ⟨.pendingInsert q d.src b f, ()⟩ pre :: y =
              (x ++ .act r ⟨.pendingInsert q d.src b f, ()⟩ pre :: z) ++
                .act i ⟨.pendingRemove q, res⟩ pre' :: z₂ := by simp [hsplit]
          obtain ⟨r', hr', hreached⟩ := hx.remover hr hpos hd hwhole
          rw [hx.lookups_eq hr] at hr'
          obtain ⟨k, hk, hle, he⟩ := hfound i _ hr'
          cases he
          exact (hreached (hb h hd) hk).trans hle
      · refine hkeep (lookups_act_of_ne hlook _) fun j hj => ?_
        have hop := congrArg Act.op (eq_of_mem_acts_singleton hj)
        exact hrem hop.symm

end Recorded

/-- Every response finds the entry of the request, with where that came from. -/
theorem found (hx : RequestExchange p₀ hist r d q) (hr : Run proxy p₀ hist c)
    (hlook : ⟨.pendingLookupAndIncrement q, e⟩ ∈ acts j hist) :
    ∃ b k f, e = some (d.src, b, k, f) := by
  obtain ⟨x, pre, y, b, f, rfl⟩ := hx.exists_insert hr (mem_lookups_iff.mpr hlook)
  have hb : ∀ h, d.header = some h → b = isBroadcastRequest h.msgType := by
    intro h hd
    obtain ⟨_, h', hd', _, _, _, hb, _⟩ := conduct_of_recv hr hx.received
    rw [hd, Option.some.injEq] at hd'
    rw [hd', hb]
  rw [← mem_lookups_iff, hx.lookups_eq hr] at hlook
  obtain ⟨k, _, _, he⟩ := (hx.observed hr hb (List.append_nil y).symm).1 j e hlook
  exact ⟨b, k, f, he⟩

end RequestExchange

section Handlers

variable {p₀ : Proxy} {hist : History} {c : Config Op.Res Proxy Datagram} {j : ℕ} {d : Datagram}

lemma sends_le_one (hr : Run proxy p₀ hist c) (hj : .recv j d ∈ hist)
    (hd : ∀ h, d.header = some h → isBroadcastRequest h.msgType = false) :
    ((acts j hist).countP fun a => a.op.isSend) ≤ 1 := by
  have hpools := poolsAtMost hr
    (le_trans (Nat.le_max_left _ p₀.upfPool.backends.length) (Nat.le_max_left _ 1))
    (le_trans (Nat.le_max_right p₀.upfPool.maxBackends _) (Nat.le_max_left _ 1)) j
  have hsends := sends_le_mostSends hr (Nat.le_max_right _ 1) hj hpools
  rw [mostSends] at hsends
  cases hh : d.header with
  | none =>
    simp only [hh] at hsends
    exact hsends.trans (Nat.zero_le 1)
  | some h => simpa [hh, mostCopies, hd h hh] using hsends

lemma isBroadcastRequest_of_response {t : MsgType} (ht : isRequest t = false) :
    isBroadcastRequest t = false := by
  cases t <;> first | rfl | cases ht

end Handlers

/-- Every response whose handler has returned has been forwarded, once, to where the request came
from. -/
theorem RequestExchange.forwarded {p₀ : Proxy} {hist : History} {c : Config Op.Res Proxy Datagram}
    {r j : ℕ} {d d' : Datagram} {q : UInt32} (hx : RequestExchange p₀ hist r d q)
    (hr : Run proxy p₀ hist c) (hj : .recv j d' ∈ hist) (hans : d'.Answers q)
    (hdone : Finished c j) :
    ⟨.sendTo d'.data d.src, true⟩ ∈ acts j hist ∧
      ((acts j hist).countP fun a => a.op.isSend) = 1 := by
  have hpath := hdone.path hr hj
  obtain ⟨e, hlook⟩ := ((response_relayed hans).path hpath).1
  obtain ⟨b, k, f, rfl⟩ := hx.found hr hlook
  obtain ⟨ok, hsent⟩ := (response_sends hans).path hpath q _ hlook
  have hsucceeded : ⟨.sendTo d'.data d.src, true⟩ ∈ acts j hist := by
    cases ok with
    | true => exact hsent
    | false => exact absurd hsent (hx.sends j d'.data d.src)
  have hone : 0 < (acts j hist).countP fun a => a.op.isSend :=
    List.countP_pos_iff.mpr ⟨_, hsucceeded, rfl⟩
  obtain ⟨h, hd, _, hresp⟩ := hans
  have hatMost := sends_le_one hr hj fun h' hd' => by
    rw [hd, Option.some.injEq] at hd'
    exact hd' ▸ isBroadcastRequest_of_response hresp
  exact ⟨hsucceeded, by omega⟩

end PfcpProxy
