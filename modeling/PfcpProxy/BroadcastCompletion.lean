import PfcpProxy.Correlation
import PfcpProxy.PoolInvariant

/-!
# Broadcasts under concurrent responses

The handlers of the responses to a broadcast look up its entry, forward and remove in steps
of their own, while the broadcast may still be sending. The lookups come one after the
other, so they observe the counts in order, and only the last of them leads to a removal.
-/

namespace PfcpProxy

open AtomicTasks

/-! ### The lookups of a history -/

/-- What a lookup answers: the origin, whether it is a broadcast, the count and the direction. -/
abbrev Found := Option (SocketAddr × Bool × ℕ × Bool)

/-- The task and the answer of a lookup of `q`. -/
def Event.lookupOf (q : UInt32) : Event Op.Res Proxy Datagram Env → Option (ℕ × Found)
  | .act i ⟨.pendingLookupAndIncrement q', e⟩ _ => if q' = q then some (i, e) else none
  | _ => none

/-- The lookups of `q`, in order. -/
def lookups (q : UInt32) (h : History) : List (ℕ × Found) := h.filterMap (Event.lookupOf q)

section Lookups

variable {p₀ : Proxy} {h h₁ h₂ : History} {c : Config Op.Res Proxy Datagram} {q : UInt32} {i j : ℕ}
  {e : Found}

lemma lookups_append (q : UInt32) (h₁ h₂ : History) :
    lookups q (h₁ ++ h₂) = lookups q h₁ ++ lookups q h₂ := List.filterMap_append

@[simp] lemma lookups_recv (i : ℕ) (d : Datagram) : lookups q [.recv i d] = [] := rfl

@[simp] lemma lookups_env (ev : Env) (pre : Proxy) : lookups q [.env ev pre] = [] := rfl

lemma lookups_act_self (pre : Proxy) :
    lookups q [.act i ⟨.pendingLookupAndIncrement q, e⟩ pre] = [(i, e)] := by
  simp [lookups, Event.lookupOf]

lemma lookups_act_of_ne {a : Act Op.Res} (ha : a.op ≠ .pendingLookupAndIncrement q) (pre : Proxy) :
    lookups q [.act i a pre] = [] := by
  obtain ⟨o, r⟩ := a
  cases o with
  | pendingLookupAndIncrement q' =>
    have hq : q' ≠ q := fun h => ha (by rw [h])
    simp [lookups, Event.lookupOf, hq]
  | _ => rfl

lemma mem_lookups_iff :
    (j, e) ∈ lookups q h ↔ ⟨.pendingLookupAndIncrement q, e⟩ ∈ acts j h := by
  rw [lookups, List.mem_filterMap, mem_acts_iff]
  constructor
  · rintro ⟨ev, hev, hlook⟩
    cases ev with
    | act i a pre =>
      obtain ⟨o, r⟩ := a
      cases o with
      | pendingLookupAndIncrement q' =>
        by_cases hq : q' = q
        · subst hq
          simp only [Event.lookupOf, if_true, Option.some.injEq, Prod.mk.injEq] at hlook
          obtain ⟨rfl, rfl⟩ := hlook
          exact ⟨pre, hev⟩
        · simp [Event.lookupOf, hq] at hlook
      | _ => cases hlook
    | recv i d => cases hlook
    | env ev pre => cases hlook
  · rintro ⟨pre, hev⟩
    exact ⟨_, hev, by simp [Event.lookupOf]⟩

lemma eq_of_mem_acts_singleton {a b : Act Op.Res} {pre : Proxy}
    (hb : b ∈ acts j ([.act i a pre] : History)) : b = a := by
  obtain ⟨pre', hp⟩ := mem_acts_iff.mp hb
  simp only [List.mem_singleton, Event.act.injEq] at hp
  exact hp.2.1

lemma lookups_nodup (hr : Run proxy p₀ h c) : ((lookups q h).map Prod.fst).Nodup := by
  induction hr with
  | nil => exact List.nodup_nil
  | @snoc h c c' ev hr hs ih =>
    have hr' := hr.snoc hs
    rw [lookups_append, List.map_append]
    cases hs with
    | recv d => simpa using ih
    | env ev => simpa using ih
    | act i d o k w hi =>
      by_cases ho : o = .pendingLookupAndIncrement q
      · subst ho
        rw [lookups_act_self, List.map_singleton, List.nodup_append_comm]
        refine List.nodup_cons.mpr ⟨?_, by simpa using ih⟩
        intro hmem
        obtain ⟨⟨_, e⟩, hlook, rfl⟩ := List.mem_map.mp hmem
        obtain ⟨d', _, hh, _, _, _, hunsent⟩ := conduct_of_act hr'
        have hwrites := (hunsent _ (mem_lookups_iff.mp hlook)).1
        cases hwrites
      · rw [lookups_act_of_ne ho]
        simpa using ih

/-- Where the lookups have observed the counts in order, each has observed one of them. -/
lemma mem_observed {a : SocketAddr} (hcounts : (lookups q h).map Prod.snd =
      (List.range (lookups q h).length).map (fun k => some (a, true, k + 1, false)))
    (hlook : (j, e) ∈ lookups q h) :
    ∃ k, k < (lookups q h).length ∧ e = some (a, true, k + 1, false) := by
  have hmem := List.mem_map_of_mem (f := Prod.snd) hlook
  rw [hcounts] at hmem
  obtain ⟨k, hk, he⟩ := List.mem_map.mp hmem
  exact ⟨k, List.mem_range.mp hk, he.symm⟩

/-- While the entry of a request is only looked up, it counts its lookups. -/
lemma entry_counted {a : SocketAddr} {b f : Bool} {pre : Proxy}
    (hr : Run proxy p₀ (h₁ ++ .act i ⟨.pendingInsert q a b f, ()⟩ pre :: h₂) c)
    (hno : ∀ j, ∀ x ∈ acts j h₂, x.op.pendingKey = some q → x.op = .pendingLookupAndIncrement q)
    (hage : c.shared.now - pre.now < fromSecs 60) :
    c.shared.pendingRequests.get q = some ⟨a, pre.now, b, (lookups q h₂).length, f⟩ := by
  induction h₂ using List.reverseRecOn generalizing c with
  | nil =>
    obtain ⟨c₁, hr₁, hs⟩ := run_snoc_iff.mp hr
    cases hs
    simp [proxy, exec, PendingRequests.insert, lookups]
  | append_singleton l ev ih =>
    rw [← List.cons_append, ← List.append_assoc, run_snoc_iff] at hr
    obtain ⟨c₁, hr₁, hs⟩ := hr
    have hnow := now_le_step hs
    have hget := ih hr₁ (fun j x hx => hno j x (by simp [hx]))
      (Nat.lt_of_le_of_lt (Nat.sub_le_sub_right hnow _) hage)
    rw [lookups_append]
    cases hs with
    | recv d => simpa using hget
    | env ev => simpa [proxy] using envStep_get hget hage
    | act j d o k w hj =>
      by_cases ho : o.pendingKey = some q
      · have hop := hno j ⟨o, (proxy.exec o w c₁.shared).1⟩ (by simp) ho
        obtain rfl : o = .pendingLookupAndIncrement q := hop
        rw [lookups_act_self]
        simp [proxy, exec, PendingRequests.lookupAndIncrement, hget]
      · have hne : o ≠ .pendingLookupAndIncrement q := fun h => ho (by rw [h]; rfl)
        rw [lookups_act_of_ne hne, List.append_nil, ← hget]
        exact exec_pending_of_ne ho _ _

/-- A removed entry stays away until a request records one. -/
lemma absent_after_remove {pre : Proxy}
    (hr : Run proxy p₀ (h₁ ++ .act i ⟨.pendingRemove q, ()⟩ pre :: h₂) c)
    (hno : ∀ j a b f, ⟨.pendingInsert q a b f, ()⟩ ∉ acts j h₂) :
    c.shared.pendingRequests.get q = none := by
  induction h₂ using List.reverseRecOn generalizing c with
  | nil =>
    obtain ⟨c₁, hr₁, hs⟩ := run_snoc_iff.mp hr
    cases hs
    simp [proxy, exec, PendingRequests.remove]
  | append_singleton l ev ih =>
    rw [← List.cons_append, ← List.append_assoc, run_snoc_iff] at hr
    obtain ⟨c₁, hr₁, hs⟩ := hr
    have hget := ih hr₁ fun j a b f hm => hno j a b f (by simp [hm])
    cases hs with
    | recv d => exact hget
    | env ev =>
      by_contra hne
      obtain ⟨info, hinfo⟩ := Option.ne_none_iff_exists'.mp hne
      rw [get_of_envStep hinfo] at hget
      cases hget
    | act j d o k w hj =>
      by_cases ho : o.pendingKey = some q
      · cases o with
        | pendingInsert q' a b f =>
          obtain rfl : q' = q := by simpa [Op.pendingKey] using ho
          exact absurd (by simp) (hno j a b f)
        | pendingLookupAndIncrement q' =>
          obtain rfl : q' = q := by simpa [Op.pendingKey] using ho
          simp [proxy, exec, PendingRequests.lookupAndIncrement, hget]
        | pendingRemove q' =>
          obtain rfl : q' = q := by simpa [Op.pendingKey] using ho
          simp [proxy, exec, PendingRequests.remove]
        | _ => cases ho
      · rw [← hget]
        exact exec_pending_of_ne ho _ _

end Lookups

/-! ### One response -/

/-- The count of a broadcast the handler has found has reached the size of the pool. -/
def ReachedPool (q : UInt32) (l : Acts) : Prop :=
  ∀ r, ⟨.pendingLookupAndIncrement q, some r⟩ ∈ l → r.2.1 = true →
    ∃ bs, ⟨.poolAllBackends, bs⟩ ∈ l ∧ bs.length ≤ r.2.2.1

/-- The response was looked up, and if it found a broadcast it was sent to the origin and,
unless that failed, the entry was removed if the count had reached the pool. -/
def Relayed (d : Datagram) (q : UInt32) (l : Acts) : Prop :=
  (∃ e, ⟨.pendingLookupAndIncrement q, e⟩ ∈ l) ∧
    ∀ r, ⟨.pendingLookupAndIncrement q, some r⟩ ∈ l → r.2.1 = true →
      ⟨.sendTo d.data r.1, false⟩ ∈ l ∨ ⟨.sendTo d.data r.1, true⟩ ∈ l ∧
        ∃ bs, ⟨.poolAllBackends, bs⟩ ∈ l ∧ (bs.length ≤ r.2.2.1 → ⟨.pendingRemove q, ()⟩ ∈ l)

lemma response_relayed {d : Datagram} {q : UInt32} (hd : d.Answers q) :
    Guarded (fun l o => o = .pendingRemove q → ReachedPool q l) (fun _ l => Relayed d q l)
      (handleMessage d) [] := by
  obtain ⟨h, hh, rfl, ht⟩ := hd
  rw [handleMessage_response hh ht]
  simp only [recordMessageReceived, handleResponse, recordResponseForwarded,
    recordResponseDropped, Prog.call_bind, Prog.act_bind, Prog.pure_eq, Prog.done_bind,
    guarded_act]
  refine ⟨by simp, fun _ => ⟨by simp, fun _ => ⟨by simp, fun e => ?_⟩⟩⟩
  rcases e with _ | ⟨o, b, n, f⟩
  · exact ⟨by simp, fun _ => ⟨⟨none, by simp⟩, by simp⟩⟩
  refine ⟨by simp, fun ok => ?_⟩
  cases ok with
  | false => exact ⟨⟨some (o, b, n, f), by simp⟩, by simp⟩
  | true =>
    cases b with
    | false =>
      simp only [Bool.false_eq_true, true_or, if_false, if_true, guarded_act]
      exact ⟨by simp, fun _ => ⟨fun _ => by simp [ReachedPool],
        fun _ => ⟨⟨some (o, false, n, f), by simp⟩, by simp⟩⟩⟩
    | true =>
      simp only [if_true, guarded_act]
      refine ⟨by simp, fun bs => ⟨by simp, fun _ => ?_⟩⟩
      split
      · rename_i hcase
        have hle : bs.length ≤ n := by simpa using hcase
        refine ⟨fun _ => ?_, fun _ => ⟨⟨some (o, true, n, f), by simp⟩, ?_⟩⟩
        · simp [ReachedPool, hle]
        · simp
      · rename_i hcase
        have hgt : n < bs.length := by simpa using hcase
        refine ⟨⟨some (o, true, n, f), by simp⟩, ?_⟩
        simp [hgt]

/-! ### The exchange -/

/-- A broadcast request over a fixed pool, and one response of each backend: nobody else uses
the sequence number, a backend answers after it was successfully sent the request, and its
response is looked up within 60 s of the record and forwarded successfully. -/
structure BroadcastExchange (p₀ : Proxy) (hist : History) (r : ℕ) (d : Datagram) (q : UInt32) :
    Prop where
  received : .recv r d ∈ hist
  request : ∃ h, d.header = some h ∧ h.sequence = q ∧ isBroadcastRequest h.msgType = true
  sole : ∀ j d', .recv j d' ∈ hist → d'.Asks q → j = r
  fixed : ∀ x y, hist = x ++ y → pooled p₀ x = p₀.upfPool.addrs
  nonempty : p₀.upfPool.addrs ≠ []
  nodup : p₀.upfPool.addrs.Nodup
  source : ∀ j d', .recv j d' ∈ hist → d'.Answers q → d'.src ∈ p₀.upfPool.addrs
  answered : ∀ u ∈ p₀.upfPool.addrs, ∃ j d', .recv j d' ∈ hist ∧ d'.Answers q ∧ d'.src = u
  once : ∀ i j d' d'', .recv i d' ∈ hist → .recv j d'' ∈ hist → d'.Answers q → d''.Answers q →
    d'.src = d''.src → i = j
  causal : ∀ x j d' y, hist = x ++ .recv j d' :: y → d'.Answers q →
    ⟨.sendTo d.data d'.src, true⟩ ∈ acts r x
  timely : ∀ j e b f pre pre', .act r ⟨.pendingInsert q d.src b f, ()⟩ pre ∈ hist →
    .act j ⟨.pendingLookupAndIncrement q, e⟩ pre' ∈ hist → pre'.now - pre.now < fromSecs 60
  forwarded : ∀ j d' data dst, .recv j d' ∈ hist → d'.Answers q →
    ⟨.sendTo data dst, false⟩ ∉ acts j hist

namespace BroadcastExchange

variable {p₀ : Proxy} {hist x y : History} {c : Config Op.Res Proxy Datagram} {r j : ℕ}
  {d d' : Datagram} {q : UInt32} {pre : Proxy} {e : Found}

lemma asks (hx : BroadcastExchange p₀ hist r d q) : d.Asks q := by
  obtain ⟨h, hd, hq, hb⟩ := hx.request
  exact ⟨h, hd, hq, by simp [isRequest, (isSmfRequest_iff _).mpr (.inl hb)]⟩

lemma exists_insert (hx : BroadcastExchange p₀ hist r d q) (hr : Run proxy p₀ hist c) :
    ∃ x pre y, hist = x ++ .act r ⟨.pendingInsert q d.src true false, ()⟩ pre :: y := by
  obtain ⟨u, hu⟩ := List.exists_mem_of_ne_nil _ hx.nonempty
  obtain ⟨j, d', hj, hans, rfl⟩ := hx.answered u hu
  obtain ⟨w, z, hwz⟩ := List.append_of_mem hj
  have hsent := hx.causal w j d' z hwz hans
  obtain ⟨p, _, hpath⟩ := hr.handler_path hx.received
  obtain ⟨l₁, l₂, hl⟩ := List.append_of_mem hsent
  rw [hwz, acts_append, hl, List.append_assoc, List.cons_append] at hpath
  obtain ⟨hh, hhd, _, _, hcase⟩ := (handleMessage_conduct d).at_act hpath
  obtain ⟨h, hd, rfl, hb⟩ := hx.request
  obtain rfl : h = hh := by simpa [hd] using hhd
  rcases hcase with ⟨_, hins, _⟩ | ⟨hresp, _⟩
  · rw [hb, isUpfRequest_of_broadcast hb, List.nil_append] at hins
    have hmem : ⟨.pendingInsert h.sequence d.src true false, ()⟩ ∈ acts r hist := by
      rw [hwz, acts_append, hl]
      exact List.mem_append_left _ (List.mem_append_left _ hins)
    exact exists_split_of_mem_acts hmem
  · simp [isRequest, (isSmfRequest_iff _).mpr (.inl hb)] at hresp

lemma lookup_answers (hr : Run proxy p₀ hist c) (hlook : (j, e) ∈ lookups q hist) :
    ∃ d', .recv j d' ∈ hist ∧ d'.Answers q := by
  have hact := mem_lookups_iff.mp hlook
  obtain ⟨w, pre, z, rfl⟩ := exists_split_of_mem_acts hact
  obtain ⟨d', hd', hh, hhd, hq, hresp, _⟩ := conduct_of_act hr
  exact ⟨d', List.mem_append_left _ hd', hh, hhd, hq.symm, hresp⟩

/-- The source of a task's datagram. -/
def source? (c : Config Op.Res Proxy Datagram) (j : ℕ) : Option SocketAddr :=
  c.tasks[j]?.map (fun t => t.msg.src)

lemma source?_eq (hr : Run proxy p₀ hist c) (hj : .recv j d' ∈ hist) :
    source? c j = some d'.src := by
  obtain ⟨p, hp⟩ := hr.exists_task hj
  simp [source?, hp]

lemma lookups_le (hx : BroadcastExchange p₀ hist r d q) (hr : Run proxy p₀ hist c) :
    (lookups q hist).length ≤ p₀.upfPool.addrs.length := by
  have hnodup : (((lookups q hist).map Prod.fst).map (source? c)).Nodup := by
    apply (lookups_nodup hr).map_on
    intro i hi j hj hij
    obtain ⟨⟨_, e⟩, hlook, rfl⟩ := List.mem_map.mp hi
    obtain ⟨⟨_, e'⟩, hlook', rfl⟩ := List.mem_map.mp hj
    obtain ⟨d₁, hd₁, hans₁⟩ := lookup_answers hr hlook
    obtain ⟨d₂, hd₂, hans₂⟩ := lookup_answers hr hlook'
    rw [source?_eq hr hd₁, source?_eq hr hd₂, Option.some.injEq] at hij
    exact hx.once _ _ d₁ d₂ hd₁ hd₂ hans₁ hans₂ hij
  have hsub : ((lookups q hist).map Prod.fst).map (source? c) ⊆ p₀.upfPool.addrs.map some := by
    intro u hu
    obtain ⟨_, hi, rfl⟩ := List.mem_map.mp hu
    obtain ⟨⟨_, e⟩, hlook, rfl⟩ := List.mem_map.mp hi
    obtain ⟨d', hd', hans⟩ := lookup_answers hr hlook
    rw [source?_eq hr hd']
    exact List.mem_map_of_mem (hx.source _ d' hd' hans)
  simpa using (hnodup.subperm hsub).length_le

/-- When the handlers of all responses have returned, there is a lookup for each backend. -/
lemma lookups_length (hx : BroadcastExchange p₀ hist r d q) (hr : Run proxy p₀ hist c)
    (hdone : ∀ j d', .recv j d' ∈ hist → d'.Answers q → Finished c j) :
    (lookups q hist).length = p₀.upfPool.addrs.length := by
  apply Nat.le_antisymm (hx.lookups_le hr)
  have hnodup : (p₀.upfPool.addrs.map some).Nodup := hx.nodup.map (Option.some_injective _)
  have hsub : p₀.upfPool.addrs.map some ⊆ ((lookups q hist).map Prod.fst).map (source? c) := by
    intro v hv
    obtain ⟨u, hu, rfl⟩ := List.mem_map.mp hv
    obtain ⟨j, d', hj, hans, rfl⟩ := hx.answered u hu
    obtain ⟨e, he⟩ := ((response_relayed hans).path ((hdone j d' hj hans).path hr hj)).1
    rw [← source?_eq hr hj]
    exact List.mem_map_of_mem (List.mem_map_of_mem (mem_lookups_iff.mpr he))
  simpa using (hnodup.subperm hsub).length_le

lemma length_read (hx : BroadcastExchange p₀ hist r d q) (hr : Run proxy p₀ hist c)
    {bs : List UpfBackend} (hread : ⟨.poolAllBackends, bs⟩ ∈ acts j hist) :
    bs.length = p₀.upfPool.addrs.length := by
  obtain ⟨w, pre, z, rfl⟩ := exists_split_of_mem_acts hread
  obtain ⟨c₁, _, hr₁, rfl, hres⟩ := act_exec hr
  obtain rfl : bs = c₁.shared.upfPool.backends := hres
  rw [← hx.fixed w _ rfl, ← run_addrs hr₁, UpfPool.length_addrs]

lemma request_keeps (hx : BroadcastExchange p₀ hist r d q) (hr : Run proxy p₀ hist c) :
    ⟨.pendingRemove q, ()⟩ ∉ acts r hist := by
  obtain ⟨u, hu⟩ := List.exists_mem_of_ne_nil _ hx.nonempty
  obtain ⟨j, d', hj, hans, rfl⟩ := hx.answered u hu
  obtain ⟨w, z, hwz⟩ := List.append_of_mem hj
  have hsent : ⟨.sendTo d.data d'.src, true⟩ ∈ acts r hist := by
    rw [hwz, acts_append]
    exact List.mem_append_left _ (hx.causal w j d' z hwz hans)
  obtain ⟨p, _, hpath⟩ := hr.handler_path hx.received
  exact sent_keeps hpath hsent hx.asks q

/-- A removal is made by a response that has seen the count reach the number of backends. -/
lemma remover (hx : BroadcastExchange p₀ hist r d q) (hr : Run proxy p₀ hist c)
    (hsplit : hist = x ++ .act j ⟨.pendingRemove q, ()⟩ pre :: y) :
    ∃ r', (j, some r') ∈ lookups q x ∧ (r'.2.1 = true → p₀.upfPool.addrs.length ≤ r'.2.2.1) := by
  subst hsplit
  obtain ⟨d', hd', hh, hhd, hq, hcase⟩ := conduct_of_act hr
  rcases hcase with ⟨hreq, _⟩ | ⟨hresp, r', hfound, _⟩
  · obtain rfl := hx.sole j d' (List.mem_append_left _ hd') ⟨hh, hhd, hq.symm, hreq⟩
    exact absurd (by simp) (hx.request_keeps hr)
  · refine ⟨r', mem_lookups_iff.mpr hfound, fun hb => ?_⟩
    obtain ⟨p, _, hpath⟩ := hr.handler_path (List.mem_append_left _ hd')
    rw [acts_append, acts_act_self] at hpath
    have hreached := (response_relayed ⟨hh, hhd, hq.symm, hresp⟩).at_act hpath rfl
    obtain ⟨bs, hread, hle⟩ := hreached r' (by simpa using hfound) hb
    have hread' : ⟨.poolAllBackends, bs⟩ ∈ acts j (x ++ .act j ⟨.pendingRemove q, ()⟩ pre :: y) := by
      rw [acts_append]
      exact List.mem_append_left _ (by simpa using hread)
    rwa [hx.length_read hr hread'] at hle

section Recorded

variable (hx : BroadcastExchange p₀ (x ++ .act r ⟨.pendingInsert q d.src true false, ()⟩ pre :: y) r d q)
  (hr : Run proxy p₀ (x ++ .act r ⟨.pendingInsert q d.src true false, ()⟩ pre :: y) c)

include hx hr

lemma not_insert_after {a : SocketAddr} {b f : Bool} :
    ⟨.pendingInsert q a b f, ()⟩ ∉ acts j y := by
  intro hm
  obtain ⟨y₁, pre', y₂, rfl⟩ := exists_split_of_mem_acts hm
  rw [← List.cons_append, ← List.append_assoc] at hr hx
  obtain ⟨d', hd', hh, hhd, hq, _, hreq, _, _, hunsent⟩ := conduct_of_act hr
  have hjr := hx.sole j d' (List.mem_append_left _ hd') ⟨hh, hhd, hq.symm, hreq⟩
  subst hjr
  have hwrites := (hunsent ⟨.pendingInsert q d.src true false, ()⟩ (by simp)).1
  cases hwrites

lemma lookups_before : lookups q x = [] := by
  rw [List.eq_nil_iff_forall_not_mem]
  rintro ⟨j, e⟩ hlook
  have hr₀ := hr
  obtain ⟨c₁, hr₁⟩ := hr.of_append
  obtain ⟨d', hj, hans⟩ := lookup_answers hr₁ hlook
  obtain ⟨w, z, rfl⟩ := List.append_of_mem hj
  have hsent := hx.causal w j d' (z ++ .act r ⟨.pendingInsert q d.src true false, ()⟩ pre :: y)
    (by simp) hans
  obtain ⟨d'', hd'', hh, _, _, _, _, _, _, hunsent⟩ := conduct_of_act hr₀
  have hsend := (hunsent ⟨.sendTo d.data d'.src, true⟩ (by simp [hsent])).2
  cases hsend

lemma key_after {o : Op} {a : o.Res} (ha : ⟨o, a⟩ ∈ acts j y) (ho : o.pendingKey = some q) :
    o = .pendingLookupAndIncrement q ∨ o = .pendingRemove q := by
  cases o with
  | pendingInsert q' a b f =>
    obtain rfl : q' = q := by simpa [Op.pendingKey] using ho
    exact absurd ha (hx.not_insert_after hr)
  | pendingLookupAndIncrement q' =>
    obtain rfl : q' = q := by simpa [Op.pendingKey] using ho
    exact .inl rfl
  | pendingRemove q' =>
    obtain rfl : q' = q := by simpa [Op.pendingKey] using ho
    exact .inr rfl
  | _ => cases ho

lemma lookups_eq (z : History) :
    lookups q (x ++ .act r ⟨.pendingInsert q d.src true false, ()⟩ pre :: z) = lookups q z := by
  rw [lookups_append, hx.lookups_before hr]
  rfl

/-- Before a lookup nothing was removed, and it observes the next count. -/
lemma lookup_answer {z₁ z₂ : History} {pre' : Proxy}
    (hy : y = z₁ ++ .act j ⟨.pendingLookupAndIncrement q, e⟩ pre' :: z₂)
    (hremoved : (∃ j, ⟨.pendingRemove q, ()⟩ ∈ acts j z₁) →
      p₀.upfPool.addrs.length ≤ (lookups q z₁).length) :
    e = some (d.src, true, (lookups q z₁).length + 1, false) ∧
      ∀ i, ⟨.pendingRemove q, ()⟩ ∉ acts i z₁ := by
  subst hy
  have hnot (i : ℕ) : ⟨.pendingRemove q, ()⟩ ∉ acts i z₁ := by
    intro hm
    have hle := hx.lookups_le hr
    have hlen := hremoved ⟨i, hm⟩
    rw [hx.lookups_eq hr, lookups_append, List.length_append, ← List.singleton_append,
      lookups_append, lookups_act_self, List.length_append, List.length_singleton] at hle
    omega
  refine ⟨?_, hnot⟩
  have hx' := hx
  have hr' := hr
  rw [← List.cons_append, ← List.append_assoc] at hr
  obtain ⟨c₁, w, hr₁, rfl, hres⟩ := act_exec hr
  have hentry := entry_counted hr₁ (fun i a ha hkey => ?_)
    (hx'.timely j e true false pre c₁.shared (by simp) (by simp))
  · simp only [exec, PendingRequests.lookupAndIncrement, hentry, Option.map_some] at hres
    exact hres
  · have hmem : a ∈ acts i (z₁ ++ .act j ⟨.pendingLookupAndIncrement q, e⟩ c₁.shared :: z₂) := by
      rw [acts_append]
      exact List.mem_append_left _ ha
    rcases hx'.key_after hr' hmem hkey with hop | hop
    · exact hop
    · obtain ⟨o, res⟩ := a
      obtain rfl : o = .pendingRemove q := hop
      exact absurd ha (hnot i)

/-- The lookups made so far have observed the counts in order, and the entry is removed only
when there is one for each backend. -/
theorem observed {z₁ z₂ : History} (hy : y = z₁ ++ z₂) :
    (lookups q z₁).map Prod.snd =
        (List.range (lookups q z₁).length).map (fun k => some (d.src, true, k + 1, false)) ∧
      ((∃ j, ⟨.pendingRemove q, ()⟩ ∈ acts j z₁) →
        p₀.upfPool.addrs.length ≤ (lookups q z₁).length) := by
  induction z₁ using List.reverseRecOn generalizing z₂ with
  | nil => exact ⟨rfl, fun ⟨j, hj⟩ => nomatch hj⟩
  | append_singleton z e ih =>
    have hsplit : y = z ++ e :: z₂ := by simp [hy]
    obtain ⟨hcounts, hremoved⟩ := ih hsplit
    have hkeep (hlook : lookups q [e] = []) (hrem : ∀ j, ⟨.pendingRemove q, ()⟩ ∉ acts j [e]) :
        (lookups q (z ++ [e])).map Prod.snd =
            (List.range (lookups q (z ++ [e])).length).map
              (fun k => some (d.src, true, k + 1, false)) ∧
          ((∃ j, ⟨.pendingRemove q, ()⟩ ∈ acts j (z ++ [e])) →
            p₀.upfPool.addrs.length ≤ (lookups q (z ++ [e])).length) := by
      rw [lookups_append, hlook, List.append_nil]
      refine ⟨hcounts, fun ⟨j, hj⟩ => hremoved ⟨j, ?_⟩⟩
      simpa [hrem j] using hj
    cases e with
    | recv i d' => exact hkeep rfl fun j => by simp
    | env ev pre' => exact hkeep rfl fun j => by simp
    | act i a pre' =>
      obtain ⟨o, res⟩ := a
      by_cases hlook : o = .pendingLookupAndIncrement q
      · subst hlook
        have hsplit : y = z ++ .act i ⟨.pendingLookupAndIncrement q, res⟩ pre' :: z₂ := by simp [hy]
        obtain ⟨hres, hnot⟩ := hx.lookup_answer hr hsplit hremoved
        subst hres
        rw [lookups_append, lookups_act_self]
        refine ⟨?_, fun ⟨j, hj⟩ => ?_⟩
        · rw [List.map_append, hcounts, List.length_append, List.length_singleton, List.range_succ,
            List.map_append, List.map_singleton, List.map_singleton]
        · rw [acts_append, List.mem_append] at hj
          rcases hj with hj | hj
          · exact absurd hj (hnot j)
          · cases eq_of_mem_acts_singleton hj
      by_cases hrem : o = .pendingRemove q
      · subst hrem
        have hsplit : x ++ .act r ⟨.pendingInsert q d.src true false, ()⟩ pre :: y =
            (x ++ .act r ⟨.pendingInsert q d.src true false, ()⟩ pre :: z) ++
              .act i ⟨.pendingRemove q, res⟩ pre' :: z₂ := by simp [hy]
        obtain ⟨r', hfound, hreached⟩ := hx.remover hr hsplit
        rw [hx.lookups_eq hr] at hfound
        obtain ⟨k, hk, hr'⟩ := mem_observed hcounts hfound
        rw [lookups_append, lookups_act_of_ne (by simp), List.append_nil]
        refine ⟨hcounts, fun _ => ?_⟩
        rw [Option.some.injEq] at hr'
        subst hr'
        have hle := hreached rfl
        simp only at hle
        omega
      · refine hkeep (lookups_act_of_ne hlook _) fun j hj => ?_
        have hop := congrArg Act.op (eq_of_mem_acts_singleton hj)
        exact hrem hop.symm

/-- The entry is removed behind the record only. -/
lemma remove_after (hrem : ⟨.pendingRemove q, ()⟩ ∈
      acts j (x ++ .act r ⟨.pendingInsert q d.src true false, ()⟩ pre :: y)) :
    ⟨.pendingRemove q, ()⟩ ∈ acts j y := by
  rw [acts_append, ← List.singleton_append, acts_append, List.mem_append, List.mem_append] at hrem
  rcases hrem with hrem | hrem | hrem
  · obtain ⟨w, pre', z, rfl⟩ := exists_split_of_mem_acts hrem
    have hsplit : w ++ .act j ⟨.pendingRemove q, ()⟩ pre' :: z ++
        .act r ⟨.pendingInsert q d.src true false, ()⟩ pre :: y = w ++ .act j ⟨.pendingRemove q, ()⟩ pre' ::
          (z ++ .act r ⟨.pendingInsert q d.src true false, ()⟩ pre :: y) := by simp
    obtain ⟨r', hfound, _⟩ := hx.remover hr hsplit
    have hbefore := hx.lookups_before hr
    rw [lookups_append, List.append_eq_nil_iff] at hbefore
    rw [hbefore.1] at hfound
    cases hfound
  · cases eq_of_mem_acts_singleton hrem
  · exact hrem

/-- All lookups observe a count up to the number of backends. -/
lemma lookup_observes (hlook : ⟨.pendingLookupAndIncrement q, e⟩ ∈
      acts j (x ++ .act r ⟨.pendingInsert q d.src true false, ()⟩ pre :: y)) :
    ∃ k, 1 ≤ k ∧ k ≤ p₀.upfPool.addrs.length ∧ e = some (d.src, true, k, false) := by
  have hle := hx.lookups_le hr
  rw [← mem_lookups_iff, hx.lookups_eq hr] at hlook
  rw [hx.lookups_eq hr] at hle
  obtain ⟨k, hk, he⟩ := mem_observed (hx.observed hr (List.append_nil y).symm).1 hlook
  exact ⟨k + 1, by omega, by omega, he⟩

lemma count_unique {i k : ℕ}
    (hi : ⟨.pendingLookupAndIncrement q, some (d.src, true, k, false)⟩ ∈
      acts i (x ++ .act r ⟨.pendingInsert q d.src true false, ()⟩ pre :: y))
    (hj : ⟨.pendingLookupAndIncrement q, some (d.src, true, k, false)⟩ ∈
      acts j (x ++ .act r ⟨.pendingInsert q d.src true false, ()⟩ pre :: y)) : i = j := by
  rw [← mem_lookups_iff, hx.lookups_eq hr] at hi hj
  have hnodup : ((lookups q y).map Prod.snd).Nodup := by
    rw [(hx.observed hr (List.append_nil y).symm).1]
    apply List.nodup_range.map
    intro k k' hk
    simpa using hk
  exact congrArg Prod.fst (List.inj_on_of_nodup_map hnodup hi hj rfl)

lemma count_observed {k : ℕ} (hpos : 1 ≤ k)
    (hk : k ≤ (lookups q (x ++ .act r ⟨.pendingInsert q d.src true false, ()⟩ pre :: y)).length) :
    ∃ j, ⟨.pendingLookupAndIncrement q, some (d.src, true, k, false)⟩ ∈
      acts j (x ++ .act r ⟨.pendingInsert q d.src true false, ()⟩ pre :: y) := by
  rw [hx.lookups_eq hr] at hk
  have hmem : some (d.src, true, k, false) ∈ (lookups q y).map Prod.snd := by
    rw [(hx.observed hr (List.append_nil y).symm).1, List.mem_map]
    exact ⟨k - 1, List.mem_range.mpr (by omega), by rw [Nat.sub_add_cancel hpos]⟩
  obtain ⟨⟨j, e⟩, hj, rfl⟩ := List.mem_map.mp hmem
  exact ⟨j, by rwa [← mem_lookups_iff, hx.lookups_eq hr]⟩

/-- Only the handler that has observed the last count removes the entry. -/
lemma remover_observes (hrem : ⟨.pendingRemove q, ()⟩ ∈
      acts j (x ++ .act r ⟨.pendingInsert q d.src true false, ()⟩ pre :: y)) :
    ⟨.pendingLookupAndIncrement q, some (d.src, true, p₀.upfPool.addrs.length, false)⟩ ∈
      acts j (x ++ .act r ⟨.pendingInsert q d.src true false, ()⟩ pre :: y) := by
  obtain ⟨w, pre', z, hsplit⟩ := exists_split_of_mem_acts hrem
  obtain ⟨r', hfound, hreached⟩ := hx.remover hr hsplit
  have hlook : ⟨.pendingLookupAndIncrement q, some r'⟩ ∈
      acts j (x ++ .act r ⟨.pendingInsert q d.src true false, ()⟩ pre :: y) := by
    rw [hsplit, acts_append]
    exact List.mem_append_left _ (mem_lookups_iff.mp hfound)
  obtain ⟨k, _, hk, he⟩ := hx.lookup_observes hr hlook
  obtain rfl := Option.some.inj he
  have hle := hreached rfl
  simp only at hle
  obtain rfl : k = p₀.upfPool.addrs.length := by omega
  exact hlook

lemma absent_of_removed (hrem : ⟨.pendingRemove q, ()⟩ ∈
      acts j (x ++ .act r ⟨.pendingInsert q d.src true false, ()⟩ pre :: y)) :
    c.shared.pendingRequests.get q = none := by
  obtain ⟨y₁, pre', y₂, rfl⟩ := exists_split_of_mem_acts (hx.remove_after hr hrem)
  have hnot (i : ℕ) (a : SocketAddr) (b f : Bool) : ⟨.pendingInsert q a b f, ()⟩ ∉ acts i y₂ := by
    intro hm
    have hins : ⟨.pendingInsert q a b f, ()⟩ ∈
        acts i (y₁ ++ .act j ⟨.pendingRemove q, ()⟩ pre' :: y₂) := by
      rw [acts_append, ← List.singleton_append, acts_append]
      exact List.mem_append_right _ (List.mem_append_right _ hm)
    exact hx.not_insert_after hr hins
  rw [← List.cons_append, ← List.append_assoc] at hr
  exact absent_after_remove hr hnot

/-- A response that is handled to its end has been forwarded to the requester, and if it
observed the last count it has removed the entry. -/
lemma response_completes {k : ℕ} {d' : Datagram}
    (hj : .recv j d' ∈ x ++ .act r ⟨.pendingInsert q d.src true false, ()⟩ pre :: y)
    (hans : d'.Answers q) (hdone : Finished c j)
    (hlook : ⟨.pendingLookupAndIncrement q, some (d.src, true, k, false)⟩ ∈
      acts j (x ++ .act r ⟨.pendingInsert q d.src true false, ()⟩ pre :: y)) :
    ⟨.sendTo d'.data d.src, true⟩ ∈
        acts j (x ++ .act r ⟨.pendingInsert q d.src true false, ()⟩ pre :: y) ∧
      (k = p₀.upfPool.addrs.length → ⟨.pendingRemove q, ()⟩ ∈
        acts j (x ++ .act r ⟨.pendingInsert q d.src true false, ()⟩ pre :: y)) := by
  have hrelayed := (response_relayed hans).path (hdone.path hr hj)
  rcases hrelayed.2 _ hlook rfl with hfail | ⟨hsent, bs, hread, hremove⟩
  · exact absurd hfail (hx.forwarded j d' _ _ hj hans)
  · refine ⟨hsent, fun hk => hremove ?_⟩
    rw [hx.length_read hr hread, hk]

/-- When the handlers of all responses have returned, one of them has removed the entry. -/
lemma exists_remover (hdone : ∀ j d',
      .recv j d' ∈ x ++ .act r ⟨.pendingInsert q d.src true false, ()⟩ pre :: y →
        d'.Answers q → Finished c j) :
    ∃ j, ⟨.pendingRemove q, ()⟩ ∈
      acts j (x ++ .act r ⟨.pendingInsert q d.src true false, ()⟩ pre :: y) := by
  have hlen := hx.lookups_length hr hdone
  obtain ⟨j, hlast⟩ := hx.count_observed hr (List.length_pos_iff.mpr hx.nonempty) hlen.ge
  obtain ⟨d', hj, hans⟩ := lookup_answers hr (mem_lookups_iff.mpr hlast)
  exact ⟨j, (hx.response_completes hr hj hans (hdone j d' hj hans) hlast).2 rfl⟩

end Recorded

end BroadcastExchange

section Completion

variable {p₀ : Proxy} {hist : History} {c : Config Op.Res Proxy Datagram} {r : ℕ} {d : Datagram}
  {q : UInt32}

/-- Broadcasts complete under every interleaving: when the handlers of the responses have
returned, every response has been forwarded to the requester and none dropped, the counts
from one to the number of backends have each been observed once, one handler has removed
the entry, and it is gone. -/
theorem broadcast_completes (hr : Run proxy p₀ hist c) (hx : BroadcastExchange p₀ hist r d q)
    (hdone : ∀ j d', .recv j d' ∈ hist → d'.Answers q → Finished c j) :
    (∀ j d', .recv j d' ∈ hist → d'.Answers q →
      ⟨.sendTo d'.data d.src, true⟩ ∈ acts j hist ∧
        ⟨.fetchAdd .responsesDropped, ()⟩ ∉ acts j hist) ∧
    (∀ k, 1 ≤ k → k ≤ p₀.upfPool.addrs.length →
      ∃! j, ⟨.pendingLookupAndIncrement q, some (d.src, true, k, false)⟩ ∈ acts j hist) ∧
    (∀ j e, ⟨.pendingLookupAndIncrement q, e⟩ ∈ acts j hist →
      ∃ k, 1 ≤ k ∧ k ≤ p₀.upfPool.addrs.length ∧ e = some (d.src, true, k, false)) ∧
    (∃! j, ⟨.pendingRemove q, ()⟩ ∈ acts j hist) ∧
    c.shared.pendingRequests.get q = none := by
  obtain ⟨x, pre, y, rfl⟩ := hx.exists_insert hr
  have hlen := hx.lookups_length hr hdone
  refine ⟨?_, ?_, fun j e => hx.lookup_observes hr, ?_, ?_⟩
  · intro j d' hj hans
    obtain ⟨e, hlook⟩ := ((response_relayed hans).path ((hdone j d' hj hans).path hr hj)).1
    obtain ⟨k, _, _, rfl⟩ := hx.lookup_observes hr hlook
    exact ⟨(hx.response_completes hr hj hans (hdone j d' hj hans) hlook).1,
      not_dropped_of_found hr hj hlook⟩
  · intro k hpos hk
    obtain ⟨j, hj⟩ := hx.count_observed hr hpos (by omega)
    exact ⟨j, hj, fun i hi => hx.count_unique hr hi hj⟩
  · obtain ⟨j, hj⟩ := hx.exists_remover hr hdone
    exact ⟨j, hj, fun i hi =>
      hx.count_unique hr (hx.remover_observes hr hi) (hx.remover_observes hr hj)⟩
  · obtain ⟨j, hj⟩ := hx.exists_remover hr hdone
    exact hx.absent_of_removed hr hj

end Completion

/-- A heartbeat request that is sent to two backends, and their responses, handled at the same
time. -/
def answeredHeartbeat : History × Config Op.Res Proxy Datagram :=
  played [upfX, upfY] .roundRobin
    (.recv (message .heartbeatRequest none 1 smfA) :: List.replicate 16 (.step 0 true) ++
      [.recv (message .heartbeatResponse none 1 upfX),
        .recv (message .heartbeatResponse none 1 upfY)] ++
      (List.replicate 16 [.step 1 true, .step 2 true]).flatten)

def isLate : Event Op.Res Proxy Datagram Env → Bool
  | .act _ _ pre => pre.now != 0
  | _ => false

lemma answeredHeartbeat_receptions : receptions answeredHeartbeat.1 =
    [(0, message .heartbeatRequest none 1 smfA), (1, message .heartbeatResponse none 1 upfX),
      (2, message .heartbeatResponse none 1 upfY)] := rfl

lemma answeredHeartbeat_recv {j : ℕ} {d : Datagram} (hj : .recv j d ∈ answeredHeartbeat.1) :
    j = 0 ∧ d = message .heartbeatRequest none 1 smfA ∨
      j = 1 ∧ d = message .heartbeatResponse none 1 upfX ∨
      j = 2 ∧ d = message .heartbeatResponse none 1 upfY := by
  rw [← mem_receptions_iff, answeredHeartbeat_receptions] at hj
  simpa using hj

lemma answeredHeartbeat_response {j : ℕ} {d : Datagram} (hj : .recv j d ∈ answeredHeartbeat.1)
    (hans : d.Answers 1) :
    j = 1 ∧ d = message .heartbeatResponse none 1 upfX ∨
      j = 2 ∧ d = message .heartbeatResponse none 1 upfY := by
  rcases answeredHeartbeat_recv hj with ⟨_, rfl⟩ | hj
  · have hask : (message .heartbeatRequest none 1 smfA).Asks 1 := ⟨_, rfl, rfl, rfl⟩
    exact absurd hans hask.not_answers
  · exact hj

lemma answeredHeartbeat_sent {x y : History} {j : ℕ} {d : Datagram}
    (hxy : answeredHeartbeat.1 = x ++ .recv j d :: y) (hans : d.Answers 1) :
    ⟨.sendTo (message .heartbeatRequest none 1 smfA).data d.src, true⟩ ∈ acts 0 x := by
  have hsent : ∀ u ∈ [upfX, upfY],
      ⟨.sendTo (message .heartbeatRequest none 1 smfA).data u, true⟩ ∈
        acts 0 (answeredHeartbeat.1.take 12) := by decide +kernel
  have hfirst : receptions (answeredHeartbeat.1.take 12) =
      [(0, message .heartbeatRequest none 1 smfA)] := rfl
  have hj : .recv j d ∈ answeredHeartbeat.1 := by simp [hxy]
  have hd : d.src ∈ [upfX, upfY] := by
    rcases answeredHeartbeat_response hj hans with ⟨_, rfl⟩ | ⟨_, rfl⟩ <;> decide
  have hlen : 12 ≤ x.length := by
    by_contra hlt
    have hmem : .recv j d ∈ answeredHeartbeat.1.take 12 := by
      rw [hxy, List.take_append, List.mem_append]
      obtain ⟨m, hm⟩ : ∃ m, 12 - x.length = m + 1 := ⟨11 - x.length, by omega⟩
      exact .inr (by simp [hm])
    rw [← mem_receptions_iff, hfirst, List.mem_singleton, Prod.mk.injEq] at hmem
    rcases answeredHeartbeat_response hj hans with ⟨rfl, _⟩ | ⟨rfl, _⟩
    · exact absurd hmem.1 (by decide)
    · exact absurd hmem.1 (by decide)
  have htake : answeredHeartbeat.1.take 12 = x.take 12 := by
    rw [hxy, List.take_append_of_le_length hlen]
  rw [← List.take_append_drop 12 x, ← htake, acts_append]
  exact List.mem_append_left _ (hsent _ hd)

lemma answeredHeartbeat_exchange :
    BroadcastExchange (Proxy.new [upfX, upfY] .roundRobin) answeredHeartbeat.1 0
      (message .heartbeatRequest none 1 smfA) 1 := by
  have hmem (i : ℕ) (d : Datagram) (hi : (i, d) ∈ receptions answeredHeartbeat.1) :
      .recv i d ∈ answeredHeartbeat.1 := mem_receptions_iff.mp hi
  have hans₁ : (message .heartbeatResponse none 1 upfX).Answers 1 := ⟨_, rfl, rfl, rfl⟩
  have hans₂ : (message .heartbeatResponse none 1 upfY).Answers 1 := ⟨_, rfl, rfl, rfl⟩
  have hpooled : ∀ n < answeredHeartbeat.1.length + 1,
      pooled (Proxy.new [upfX, upfY] .roundRobin) (answeredHeartbeat.1.take n) = [upfX, upfY] := by
    decide +kernel
  have hearly : answeredHeartbeat.1.all (fun e => !isLate e) = true := by decide +kernel
  have hforward : answeredHeartbeat.1.all (fun e => !isFailedSend e) = true := by decide +kernel
  rw [answeredHeartbeat_receptions] at hmem
  refine ⟨hmem 0 _ (by simp), ⟨_, rfl, rfl, rfl⟩, ?_, ?_, by decide, by decide, ?_, ?_, ?_, ?_, ?_, ?_⟩
  · intro j d hj hask
    rcases answeredHeartbeat_recv hj with ⟨rfl, _⟩ | ⟨_, rfl⟩ | ⟨_, rfl⟩
    · rfl
    · exact absurd hans₁ hask.not_answers
    · exact absurd hans₂ hask.not_answers
  · exact fun x y hxy => pooled_of_take hpooled hxy
  · intro j d hj hans
    rcases answeredHeartbeat_response hj hans with ⟨_, rfl⟩ | ⟨_, rfl⟩ <;> decide
  · intro u hu
    obtain rfl | rfl : u = upfX ∨ u = upfY := by
      simpa [Proxy.new, UpfPool.new, UpfPool.addrs, UpfBackend.fresh] using hu
    · exact ⟨1, _, hmem 1 _ (by simp), hans₁, rfl⟩
    · exact ⟨2, _, hmem 2 _ (by simp), hans₂, rfl⟩
  · intro i j d d' hi hj hans hans' hsrc
    rcases answeredHeartbeat_response hi hans with ⟨rfl, rfl⟩ | ⟨rfl, rfl⟩ <;>
      rcases answeredHeartbeat_response hj hans' with ⟨rfl, rfl⟩ | ⟨rfl, rfl⟩
    · rfl
    · exact absurd hsrc (by decide)
    · exact absurd hsrc (by decide)
    · rfl
  · exact fun x j d y hxy hans => answeredHeartbeat_sent hxy hans
  · intro j e b f pre pre' hins hlook
    have hnow : pre'.now = 0 := by simpa [isLate] using List.all_eq_true.mp hearly _ hlook
    rw [hnow, Nat.zero_sub]
    decide
  · intro j d data dst _ _
    exact notMem_acts_of_all hforward (fun _ => rfl)

theorem broadcast_completes_two :
    (∃! j, ⟨.pendingRemove 1, ()⟩ ∈ acts j answeredHeartbeat.1) ∧
      answeredHeartbeat.2.shared.pendingRequests.get 1 = none := by
  have hr : Run proxy (Proxy.new [upfX, upfY] .roundRobin) answeredHeartbeat.1
      answeredHeartbeat.2 := played_run _ _ _
  have hdone : ∀ j d, .recv j d ∈ answeredHeartbeat.1 → d.Answers 1 →
      Finished answeredHeartbeat.2 j := by
    intro j d hj hans
    rcases answeredHeartbeat_response hj hans with ⟨rfl, _⟩ | ⟨rfl, _⟩
    · exact ⟨message .heartbeatResponse none 1 upfX, by rfl⟩
    · exact ⟨message .heartbeatResponse none 1 upfY, by rfl⟩
  exact (broadcast_completes hr answeredHeartbeat_exchange hdone).2.2.2

end PfcpProxy
