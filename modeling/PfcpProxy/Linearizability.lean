import PfcpProxy.Lib.Serialization
import PfcpProxy.Affinity
import PfcpProxy.Pending

/-!
# Concurrent handlers and the table of pending requests

The handlers of a run, with the routing decisions they came to, against the same handlers
one at a time. The sequence numbers are the keys; what matters is who works on a sequence
number while another handler still has its entry to remove.
-/

namespace PfcpProxy

open AtomicTasks

/-- The pending entries without their timestamps. -/
def pendingView : KeyedView exec UInt32 (Option (SocketAddr × Bool × ℕ × Bool)) where
  key := Op.pendingKey
  view q p := (p.pendingRequests.get q).map
    (fun info => (info.originAddr, info.isBroadcast, info.responsesReceived, info.fromUpf))
  next
    | .pendingInsert _ a b f, _ => some (a, b, 0, f)
    | .pendingLookupAndIncrement _, v => v.map (fun e => (e.1, e.2.1, e.2.2.1 + 1, e.2.2.2))
    | .pendingRemove _, _ => none
    | _, v => v
  fits
    | ⟨.pendingLookupAndIncrement _, r⟩, v => r = v.map (fun e => (e.1, e.2.1, e.2.2.1 + 1, e.2.2.2))
    | _, _ => True
  view_hit o w p q hq := by
    cases o with
    | pendingInsert q' a b f =>
      cases hq
      simp [exec, PendingRequests.insert]
    | pendingLookupAndIncrement q' =>
      cases hq
      simp [exec, PendingRequests.lookupAndIncrement, Function.comp_def]
    | pendingRemove q' =>
      cases hq
      simp [exec, PendingRequests.remove]
    | _ => cases hq
  view_miss o w p q hq := by
    rw [exec_pending_of_ne hq]
  fits_iff o r w p q hq := by
    cases o with
    | pendingInsert q' a b f => simp [exec]
    | pendingLookupAndIncrement q' =>
      cases hq
      simp [exec, PendingRequests.lookupAndIncrement, Function.comp_def]
    | pendingRemove q' => simp [exec]
    | _ => cases hq

/-- A handler takes up one sequence number, once, and only then removes its entry. -/
lemma conduct_discipline {d : Datagram} (l : Acts) (o : Op) (hI : Conduct d l o) :
    Discipline Op.pendingKey Op.opensPending l o := by
  constructor
  · intro ho b hb
    simpa using conduct_opens_once l o hI ho b hb
  · intro q hq
    obtain ⟨h, _, hI⟩ := hI
    cases o with
    | pendingInsert q' a b f => exact .inl rfl
    | pendingLookupAndIncrement q' => exact .inl rfl
    | pendingRemove q' =>
      cases hq
      obtain ⟨_, ⟨_, _, hins⟩ | ⟨_, r, hlook, _⟩⟩ := hI
      · exact .inr ⟨_, hins, rfl, rfl⟩
      · exact .inr ⟨_, hlook, rfl, rfl⟩
    | _ => cases hq

lemma handleMessage_discipline (d : Datagram) :
    Guarded (Discipline Op.pendingKey Op.opensPending) (fun _ _ => True) (handleMessage d) [] :=
  (handleMessage_conduct d).mono conduct_discipline fun _ _ h => h

/-! ### What is left after routing -/

/-- What `handleUpfRequest` does for a session it has found. -/
def forwardReport (data : List UInt8) (src : SocketAddr) (sequence : UInt32)
    (smfAddr : SocketAddr) : Handler Unit := do
  perform (.pendingInsert sequence src false true)
  if ← perform (.sendTo data smfAddr) then
    return ()
  else
    perform (.pendingRemove sequence)

lemma forwardReport_only (data : List UInt8) (src : SocketAddr) (q : UInt32) (smf : SocketAddr) :
    Only (fun o => o.isRelay = true) (forwardReport data src q smf) := by
  refine ⟨rfl, fun _ => ⟨rfl, fun ok => ?_⟩⟩
  cases ok with
  | true => trivial
  | false => exact ⟨rfl, fun _ => trivial⟩

/-- `Relays d l f`: the handler of `d`, with the acts `l`, does `f` once its target is
decided. -/
inductive Relays (d : Datagram) (l : Acts) : Handler Unit → Prop
  | request {h : Header} {dec : RoutingDecision} (hd : d.header = some h)
      (ht : isSmfRequest h.msgType = true) (hdec : Routed d l dec) :
    Relays d l (forwardRequest d.data d.src h.sequence dec)
  | report {h : Header} {s : UInt64} {smf : SocketAddr} (hd : d.header = some h)
      (ht : isUpfRequest h.msgType = true) (hs : h.seid = some s)
      (hfound : ⟨.sessionLookupFull s, some (d.src, smf)⟩ ∈ l) :
    Relays d l (forwardReport d.data d.src h.sequence smf)
  | response {h : Header} (hd : d.header = some h) (ht : isRequest h.msgType = false) :
    Relays d l (handleResponse d.data h.sequence)
  | unparsed (hd : d.header = none) : Relays d l (.done ())
  | unknown {h : Header} (hd : d.header = some h) (ht : isUpfRequest h.msgType = true)
      (hno : ∀ s smf, ⟨.sessionLookupFull s, some (d.src, smf)⟩ ∉ l) : Relays d l (.done ())

lemma Unsent.append {l l' : Acts} (hl : Unsent l) (hl' : Unsent l') : Unsent (l ++ l') := by
  intro a ha
  rcases List.mem_append.mp ha with ha | ha
  · exact hl a ha
  · exact hl' a ha

lemma recordMessageReceived_unsent {t : MsgType} {l : Acts} {q : Handler Unit}
    (hp : Path (recordMessageReceived t) l q) : Unsent l := by
  have honly : Only (fun o => o.isQuiet = true) (recordMessageReceived t) :=
    ⟨rfl, fun _ => ⟨rfl, fun _ => trivial⟩⟩
  exact Idle.unsent (hp.only honly)

/-- A finished `handleUpfRequest` has looked the session up, if it was asked to, and then
relayed to the SMF it has found. -/
lemma relays_of_report {d : Datagram} {h : Header} (hd : d.header = some h)
    (hupf : isUpfRequest h.msgType = true) {l l' : Acts}
    (hoff : ∀ s r, ⟨.sessionLookupFull s, r⟩ ∉ l)
    (hp : Path (handleUpfRequest d.data d.src h.seid h.sequence) l' (.done ())) :
    ∃ f l₁ l₂, l' = l₁ ++ l₂ ∧ Unsent l₁ ∧ Relays d (l ++ l') f ∧ Path f l₂ (.done ()) ∧
      ∀ a ∈ l₂, a.op.isRelay = true := by
  cases hs : h.seid with
  | none =>
    simp only [handleUpfRequest, hs, Prog.pure_eq] at hp
    obtain ⟨rfl, _⟩ := path_done_iff.mp hp
    exact ⟨_, [], [], rfl, by simp [Unsent], .unknown hd hupf (by simp [hoff]), .nil _, by simp⟩
  | some s =>
    simp only [handleUpfRequest, hs, Prog.call_bind] at hp
    cases hp with
    | cons r hp' =>
      rename_i l₂
      have hlook : Unsent [⟨.sessionLookupFull s, r⟩] := by
        intro a ha
        rw [List.mem_singleton] at ha
        subst ha
        exact ⟨rfl, rfl⟩
      by_cases hr : ∃ smf, r = some (d.src, smf)
      · obtain ⟨smf, rfl⟩ := hr
        simp only [if_true] at hp'
        exact ⟨forwardReport d.data d.src h.sequence smf, [_], l₂, rfl, hlook,
          .report hd hupf hs (by simp), hp', hp'.only (forwardReport_only _ _ _ _)⟩
      · -- nothing is done for a session that is unknown or of another UPF
        have hnil : l₂ = [] := by
          rcases r with _ | ⟨u, smf⟩
          · exact (path_done_iff.mp hp').1
          · have hu : u ≠ d.src := by
              rintro rfl
              exact hr ⟨smf, rfl⟩
            simp only [hu, if_false] at hp'
            exact (path_done_iff.mp hp').1
        subst hnil
        refine ⟨_, [_], [], rfl, hlook, .unknown hd hupf ?_, .nil _, by simp⟩
        intro s' smf hm
        rw [List.mem_append, List.mem_singleton] at hm
        rcases hm with hm | hm
        · exact hoff _ _ hm
        · cases hm
          exact hr ⟨smf, rfl⟩

/-- A finished handler has decided its target, and then relayed. -/
theorem relays_of_path {d : Datagram} {l : Acts} (hp : Path (handleMessage d) l (.done ())) :
    ∃ f l₁ l₂, l = l₁ ++ l₂ ∧ Unsent l₁ ∧ Relays d l f ∧ Path f l₂ (.done ()) ∧
      ∀ a ∈ l₂, a.op.isRelay = true := by
  cases hd : d.header with
  | none =>
    obtain rfl := acts_of_unparsed hd hp
    exact ⟨_, [], [], rfl, by simp [Unsent], .unparsed hd, .nil _, by simp⟩
  | some h =>
    cases hsmf : isSmfRequest h.msgType with
    | true =>
      rw [handleMessage_smf hd hsmf] at hp
      obtain ⟨_, l₁, l', rfl, hp₁, hp'⟩ := path_bind_done hp
      obtain ⟨dec, l₂, l₃, rfl, hp₂, hp₃⟩ := path_bind_done hp'
      have hroute : Unsent l₂ := by
        have hidle : Idle [] := by simp [Idle]
        exact ((routeMessage_conduct hd hsmf hidle).path hp₂).1
      refine ⟨_, l₁ ++ l₂, l₃, (List.append_assoc _ _ _).symm,
        (recordMessageReceived_unsent hp₁).append hroute, .request hd hsmf ?_, hp₃,
        hp₃.only (forwardRequest_only _ _ _ _)⟩
      exact ⟨h, l₁, l₂, l₃, hd, (List.append_assoc _ _ _).symm, hp₁, hp₂⟩
    | false =>
      cases hupf : isUpfRequest h.msgType with
      | false =>
        have hresp : isRequest h.msgType = false := by simp [isRequest, hsmf, hupf]
        rw [handleMessage_response hd hresp] at hp
        obtain ⟨_, l₁, l₂, rfl, hp₁, hp₂⟩ := path_bind_done hp
        exact ⟨_, l₁, l₂, rfl, recordMessageReceived_unsent hp₁, .response hd hresp, hp₂,
          hp₂.only (handleResponse_only _ _)⟩
      | true =>
        rw [handleMessage_upf hd hupf] at hp
        obtain ⟨_, l₁, l', rfl, hp₁, hp'⟩ := path_bind_done hp
        have hoff : ∀ s r, ⟨.sessionLookupFull s, r⟩ ∉ l₁ := by
          intro s r hm
          cases hp₁.only (recordMessageReceived_offSession _) _ hm
        obtain ⟨f, l₂, l₃, rfl, hun, hrel, hpath, honly⟩ := relays_of_report hd hupf hoff hp'
        exact ⟨f, l₁ ++ l₂, l₃, (List.append_assoc _ _ _).symm,
          (recordMessageReceived_unsent hp₁).append hun, hrel, hpath, honly⟩

/-! ### One at a time -/

/-- The handlers of the run, in some order that respects the order of handlers that do not
overlap, relay one at a time what they relay in the run, and leave the same pending entries. -/
def Serializable (p₀ : Proxy) (h : History) (c : Config Op.Res Proxy Datagram) : Prop :=
  ∃ (order : List ℕ) (f : ℕ → Handler Unit) (relay : ℕ → Acts) (p : Proxy),
    order.Perm (List.range c.tasks.length) ∧
    (∀ i j, Precedes h i j → [i, j].Sublist order) ∧
    (∀ i d, .recv i d ∈ h → Relays d (acts i h) (f i) ∧
      ∃ l, Unsent l ∧ acts i h = l ++ relay i) ∧
    Serially exec p₀ (order.map fun i => (f i, relay i)) p ∧
    ∀ q, pendingView.view q p = pendingView.view q c.shared

/-- When a handler removes an entry, no entry was recorded under the sequence number since it
took that up. -/
def RemovesOwn (h : History) : Prop :=
  ∀ h₁ j pre h₂ q, h = h₁ ++ .act j ⟨.pendingRemove q, ()⟩ pre :: h₂ →
    ∃ x a pre' y, h₁ = x ++ .act j a pre' :: y ∧ a.op.opensPending = true ∧
      a.op.pendingKey = some q ∧ ∀ i o b f, ⟨.pendingInsert q o b f, ()⟩ ∉ acts i y

/-- At most one response is forwarded on behalf of a request that is no broadcast. -/
def ForwardsOnce (h : History) : Prop :=
  ∀ x₁ j₁ e₁ p₁ y₁ x₂ j₂ e₂ p₂ y₂ q r d₁ d₂,
    h = x₁ ++ .act j₁ ⟨.pendingLookupAndIncrement q, some e₁⟩ p₁ :: y₁ →
    h = x₂ ++ .act j₂ ⟨.pendingLookupAndIncrement q, some e₂⟩ p₂ :: y₂ →
    lastRecord q x₁ = some r → lastRecord q x₂ = some r → e₁.2.1 = false → e₂.2.1 = false →
    .recv j₁ d₁ ∈ h → ⟨.sendTo d₁.data e₁.1, true⟩ ∈ acts j₁ h →
    .recv j₂ d₂ ∈ h → ⟨.sendTo d₂.data e₂.1, true⟩ ∈ acts j₂ h → j₁ = j₂

structure Linearizable (p₀ : Proxy) (h : History) (c : Config Op.Res Proxy Datagram) : Prop where
  serializable : Serializable p₀ h c
  removesOwn : RemovesOwn h
  forwardsOnce : ForwardsOnce h

/-- Nothing but time passes around the handlers. -/
def OnlyTicks (h : History) : Prop := ∀ e pre, .env e pre ∈ h → ∃ n, e = .tick n

variable {p₀ : Proxy} {h h₁ h₂ : History} {c : Config Op.Res Proxy Datagram}

lemma exec_backends (o : Op) (w : Bool) (p : Proxy) :
    (exec o w p).2.upfPool.backends = p.upfPool.backends := by
  cases o <;> rfl

lemma OnlyTicks.backends (hr : Run proxy p₀ h c) (htime : OnlyTicks h) :
    c.shared.upfPool.backends = p₀.upfPool.backends := by
  induction hr with
  | nil => rfl
  | @snoc h c c' e hr hs ih =>
    rw [← ih fun e pre he => htime e pre (List.mem_append_left _ he)]
    cases hs with
    | recv d => rfl
    | act i d o k w hi => exact exec_backends o w c.shared
    | env e =>
      obtain ⟨n, rfl⟩ := htime e c.shared (by simp)
      rfl

lemma Op.pendingKey_of_unsent {o : Op} (ho : o.writesPending = false) : o.pendingKey = none := by
  cases o <;> first | rfl | cases ho

lemma Unsent.onKey {l : Acts} (hl : Unsent l) (q : UInt32) : pendingView.onKey q l = [] := by
  rw [KeyedView.onKey, List.filter_eq_nil_iff]
  intro a ha hq
  rw [decide_eq_true_eq] at hq
  cases (Op.pendingKey_of_unsent (hl a ha).1).symm.trans hq

/-- What is relayed depends, pending entries aside, on the backends alone. -/
lemma exec_relay_res {o : Op} (ho : o.isRelay = true) (hq : o.pendingKey = none) (w : Bool)
    {p p' : Proxy} (hb : p.upfPool.backends = p'.upfPool.backends) :
    (exec o w p).1 = (exec o w p').1 := by
  cases o with
  | poolAllBackends => exact hb
  | pendingInsert q a b f => cases hq
  | pendingLookupAndIncrement q => cases hq
  | pendingRemove q => cases hq
  | sendTo data dst => rfl
  | fetchAdd c => rfl
  | countUpfMessage u => rfl
  | _ => cases ho

theorem serializable_of_undisturbed (hr : Run proxy p₀ h c)
    (hdone : ∀ i < c.tasks.length, Finished c i) (htime : OnlyTicks h)
    (hu : Undisturbed Op.pendingKey h) : Serializable p₀ h c := by
  have hparts : ∀ i, ∃ f l₂, i < c.tasks.length → ∃ d l₁, .recv i d ∈ h ∧ acts i h = l₁ ++ l₂ ∧
      Unsent l₁ ∧ Relays d (acts i h) f ∧ Path f l₂ (.done ()) ∧ ∀ a ∈ l₂, a.op.isRelay = true := by
    intro i
    by_cases hi : i < c.tasks.length
    · obtain ⟨d, hd⟩ := hdone i hi
      obtain ⟨f, l₁, l₂, hl, hun, hrel, hpath, honly⟩ := relays_of_path (hr.path hd)
      exact ⟨f, l₂, fun _ => ⟨d, l₁, hr.recv_mem hd, hl, hun, hrel, hpath, honly⟩⟩
    · exact ⟨.done (), [], fun h => absurd h hi⟩
  choose f relay hparts using hparts
  have henv : ∀ e pre, .env e pre ∈ h → ∀ q,
      pendingView.view q (proxy.env e pre) = pendingView.view q pre := by
    intro e pre he q
    obtain ⟨n, rfl⟩ := htime e pre he
    rfl
  have hkeys : ∀ i < c.tasks.length, ∀ q,
      pendingView.onKey q (relay i) = pendingView.onKey q (acts i h) := by
    intro i hi q
    obtain ⟨_, l₁, _, hl, hun, _⟩ := hparts i hi
    rw [hl, KeyedView.onKey_append, hun.onKey, List.nil_append]
  have hpath : ∀ i < c.tasks.length, Path (f i) (relay i) (.done ()) := by
    intro i hi
    obtain ⟨_, _, _, _, _, _, hpath, _⟩ := hparts i hi
    exact hpath
  have hkeep : ∀ i < c.tasks.length, ∀ a ∈ relay i, ∀ w p,
      p.upfPool.backends = p₀.upfPool.backends →
        (exec a.op w p).2.upfPool.backends = p₀.upfPool.backends :=
    fun i _ a _ w p hp => (exec_backends a.op w p).trans hp
  have hfree : ∀ i < c.tasks.length, ∀ a ∈ relay i, a.op.pendingKey = none → ∀ p,
      p.upfPool.backends = p₀.upfPool.backends → ∃ w, a.res = (exec a.op w p).1 := by
    intro i hi a ha hq p hp
    obtain ⟨_, _, _, hl, _, _, _, honly⟩ := hparts i hi
    have hact : a ∈ acts i h := by
      rw [hl]
      exact List.mem_append_right _ ha
    obtain ⟨x, pre, y, rfl⟩ := exists_split_of_mem_acts hact
    obtain ⟨c₁, w, hr₁, rfl, hres⟩ := act_exec hr
    have hb := OnlyTicks.backends hr₁ fun e pre he => htime e pre (List.mem_append_left _ he)
    exact ⟨w, hres.trans (exec_relay_res (honly a ha) hq w (hb.trans hp.symm))⟩
  obtain ⟨p, hserial, hview⟩ := Run.serializable pendingView handleMessage_discipline hr hu henv
    hpath hkeys (fun p => p.upfPool.backends = p₀.upfPool.backends) hkeep hfree rfl
  refine ⟨_, f, relay, p, hr.serialOrder_perm handleMessage_discipline,
    fun i j => hr.serialOrder_respects _, ?_, hserial, hview⟩
  intro i d hd
  obtain ⟨p', hp'⟩ := hr.exists_task hd
  obtain ⟨d', l, hd', hl, hun, hrel, _⟩ := hparts i (List.getElem?_eq_some_iff.mp hp').1
  obtain rfl := hr.recv_unique hd hd'
  exact ⟨hrel, l, hun, hl⟩

/-- Undisturbed handlers remove their own entries. -/
theorem removesOwn_of_undisturbed (hr : Run proxy p₀ h c) (hu : Undisturbed Op.pendingKey h) :
    RemovesOwn h := by
  rintro h₁ j pre h₂ q rfl
  rcases (hr.discipline handleMessage_discipline).2 q rfl with hop | ⟨a, ha, hop, hq⟩
  · cases hop
  obtain ⟨x, pre', y, rfl⟩ := exists_split_of_mem_acts ha
  refine ⟨x, a, pre', y, rfl, hop, hq, ?_⟩
  intro i o b f hins
  obtain ⟨y₁, pre'', y₂, rfl⟩ := exists_split_of_mem_acts hins
  obtain rfl : i = j := hu x j a pre' _ _ pre h₂ q rfl hq rfl i
    ⟨.pendingInsert q o b f, ()⟩ pre'' (by simp) rfl
  have hr' : Run proxy p₀ ((x ++ .act i a pre' :: y₁) ++ .act i ⟨.pendingInsert q o b f, ()⟩ pre'' ::
      (y₂ ++ .act i ⟨.pendingRemove q, ()⟩ pre :: h₂)) c := by simpa using hr
  have honce := (hr'.discipline handleMessage_discipline).1 rfl a (by simp)
  rw [hop] at honce
  cases honce

/-- Since its removal, an entry can only be there because it was recorded again. -/
lemma recorded_since_remove {j : ℕ} {pre : Proxy} {q : UInt32} {info : RequestInfo}
    (hr : Run proxy p₀ (h₁ ++ .act j ⟨.pendingRemove q, ()⟩ pre :: h₂) c)
    (hget : c.shared.pendingRequests.get q = some info) : lastRecord q h₂ ≠ none := by
  rw [List.append_cons] at hr
  rcases entry_origin hr hget with ⟨i, hi⟩ | ⟨_, c₁, hr₁, hne⟩
  · simp [hi]
  · obtain ⟨c₂, hr₂, hs⟩ := run_snoc_iff.mp hr₁
    cases hs with
    | act _ d o k w hi => simp [proxy, exec, PendingRequests.remove] at hne

lemma found_since_remove {j k : ℕ} {pre pre' : Proxy} {q : UInt32}
    {e : SocketAddr × Bool × ℕ × Bool} {y : History}
    (hr : Run proxy p₀ (h₁ ++ .act j ⟨.pendingRemove q, ()⟩ pre :: h₂ ++
      .act k ⟨.pendingLookupAndIncrement q, some e⟩ pre' :: y) c) :
    ∃ i a, lastRecord q h₂ = some (i, a) := by
  obtain ⟨c₂, w, hr₂, rfl, hres⟩ := act_exec hr
  obtain ⟨info, hget, _⟩ := Option.map_eq_some_iff.mp hres.symm
  obtain ⟨⟨i, a⟩, hlast⟩ := Option.ne_none_iff_exists'.mp (recorded_since_remove hr₂ hget)
  exact ⟨i, a, hlast⟩

/-- A finished response that was forwarded to the origin of a request which is no broadcast has
removed the entry. -/
lemma response_removes {d : Datagram} {q : UInt32} (hd : d.Answers q) :
    Guarded (fun _ _ => True)
      (fun _ l => ∀ e, ⟨.pendingLookupAndIncrement q, some e⟩ ∈ l → e.2.1 = false →
        ⟨.sendTo d.data e.1, true⟩ ∈ l → ⟨.pendingRemove q, ()⟩ ∈ l) (handleMessage d) [] := by
  obtain ⟨h, hh, rfl, ht⟩ := hd
  rw [handleMessage_response hh ht]
  simp only [recordMessageReceived, handleResponse, recordResponseForwarded,
    recordResponseDropped, Prog.call_bind, Prog.act_bind, Prog.pure_eq, Prog.done_bind,
    guarded_act, true_and]
  intro _ _ r
  rcases r with _ | ⟨o, b, n, f⟩
  · simp [Prog.call]
  · simp only [guarded_act, true_and]
    intro ok
    cases ok with
    | false => simp
    | true =>
      cases b with
      | false => simp [Prog.call]
      | true =>
        simp only [if_true, guarded_act, true_and]
        intro bs _
        split
        · simp [Prog.call]
        · simp

/-- Between two lookups that find the entry of one request, it is not removed: it would have
been recorded again. -/
lemma not_removed_between {x z y : History} {j₁ j₂ i : ℕ}
    {e₁ e₂ : SocketAddr × Bool × ℕ × Bool} {p₁ p₂ : Proxy} {q : UInt32} {r : ℕ × SocketAddr}
    (hr : Run proxy p₀ (x ++ .act j₁ ⟨.pendingLookupAndIncrement q, some e₁⟩ p₁ :: z ++
      .act j₂ ⟨.pendingLookupAndIncrement q, some e₂⟩ p₂ :: y) c)
    (hlast₁ : lastRecord q x = some r)
    (hlast₂ : lastRecord q (x ++ .act j₁ ⟨.pendingLookupAndIncrement q, some e₁⟩ p₁ :: z) = some r) :
    ⟨.pendingRemove q, ()⟩ ∉ acts i z := by
  intro hbetween
  obtain ⟨u, p, v, rfl⟩ := exists_split_of_mem_acts hbetween
  have hr' : Run proxy p₀ ((x ++ .act j₁ ⟨.pendingLookupAndIncrement q, some e₁⟩ p₁ :: u) ++
      .act i ⟨.pendingRemove q, ()⟩ p :: v ++
        .act j₂ ⟨.pendingLookupAndIncrement q, some e₂⟩ p₂ :: y) c := by simpa using hr
  obtain ⟨k, a, hv⟩ := found_since_remove hr'
  have hlast := lastRecord_append ((x ++ .act j₁ ⟨.pendingLookupAndIncrement q, some e₁⟩ p₁ :: u) ++
    [.act i ⟨.pendingRemove q, ()⟩ p]) hv
  obtain rfl : r = (k, a) := by
    simp only [List.append_assoc, List.cons_append, List.nil_append] at hlast
    rw [hlast, Option.some.injEq] at hlast₂
    exact hlast₂.symm
  obtain ⟨b₁, f₁, hins₁⟩ := mem_of_lastRecord hlast₁
  obtain ⟨b₂, f₂, hins₂⟩ := mem_of_lastRecord hv
  obtain ⟨v₁, p', v₂, rfl⟩ := exists_split_of_mem_acts hins₂
  have hr'' : Run proxy p₀ ((x ++ .act j₁ ⟨.pendingLookupAndIncrement q, some e₁⟩ p₁ ::
      (u ++ .act i ⟨.pendingRemove q, ()⟩ p :: v₁)) ++ .act k ⟨.pendingInsert q a b₂ f₂, ()⟩ p' ::
        (v₂ ++ .act j₂ ⟨.pendingLookupAndIncrement q, some e₂⟩ p₂ :: y)) c := by simpa using hr'
  cases (hr''.discipline handleMessage_discipline).1 rfl ⟨.pendingInsert q a b₁ f₁, ()⟩
    (by simp [hins₁])

/-- Of two lookups that find the entry of one request, the first of which is answered for a
request that is no broadcast, the second belongs to the same handler. -/
lemma forwardsOnce_ordered {x z y : History} {j₁ j₂ : ℕ} {e₁ e₂ : SocketAddr × Bool × ℕ × Bool}
    {p₁ p₂ : Proxy} {q : UInt32} {r : ℕ × SocketAddr} {d₁ : Datagram}
    (hh : h = x ++ .act j₁ ⟨.pendingLookupAndIncrement q, some e₁⟩ p₁ :: z ++
      .act j₂ ⟨.pendingLookupAndIncrement q, some e₂⟩ p₂ :: y)
    (hr : Run proxy p₀ h c) (hu : Undisturbed Op.pendingKey h) (hdone : Finished c j₁)
    (hlast₁ : lastRecord q x = some r)
    (hlast₂ : lastRecord q (x ++ .act j₁ ⟨.pendingLookupAndIncrement q, some e₁⟩ p₁ :: z) = some r)
    (hb : e₁.2.1 = false) (hd₁ : .recv j₁ d₁ ∈ h)
    (hsent : ⟨.sendTo d₁.data e₁.1, true⟩ ∈ acts j₁ h) : j₁ = j₂ := by
  have hsplit : h = x ++ .act j₁ ⟨.pendingLookupAndIncrement q, some e₁⟩ p₁ ::
      (z ++ .act j₂ ⟨.pendingLookupAndIncrement q, some e₂⟩ p₂ :: y) := by simp [hh]
  have hlook : ⟨.pendingLookupAndIncrement q, some e₁⟩ ∈ acts j₁ h := by simp [hsplit]
  have hans : d₁.Answers q := answers_of_lookup hr hd₁ hlook
  have hfirst := ((hsplit ▸ hr : Run proxy p₀ _ c).discipline handleMessage_discipline).1 rfl
  have hremove : ⟨.pendingRemove q, ()⟩ ∈ acts j₁ h :=
    (response_removes hans).path (hdone.path hr hd₁) e₁ hlook hb hsent
  rw [hsplit, acts_append, acts_act_self, acts_append, List.mem_append, List.mem_cons,
    List.mem_append] at hremove
  rcases hremove with hbefore | hsame | hbetween | hafter
  · -- nothing is removed before it is looked up
    obtain ⟨u, p, v, rfl⟩ := exists_split_of_mem_acts hbefore
    rw [hsplit, List.append_assoc] at hr
    rcases (hr.discipline handleMessage_discipline).2 q rfl with hop | ⟨b, hbm, hop, _⟩
    · cases hop
    · have hno := hfirst b (by simp [hbm])
      rw [hop] at hno
      cases hno
  · cases hsame
  · exact absurd hbetween (not_removed_between (hh ▸ hr) hlast₁ hlast₂)
  · -- still to be removed when it is looked up again
    have hlater : ⟨.pendingRemove q, ()⟩ ∈ acts j₁ y := by
      by_cases hj : j₂ = j₁
      · subst hj
        simpa using hafter
      · rwa [acts_act_of_ne hj] at hafter
    obtain ⟨y₁, p, y₂, rfl⟩ := exists_split_of_mem_acts hlater
    refine (hu x j₁ ⟨.pendingLookupAndIncrement q, some e₁⟩ p₁
      (z ++ .act j₂ ⟨.pendingLookupAndIncrement q, some e₂⟩ p₂ :: y₁) ⟨.pendingRemove q, ()⟩ p y₂ q
      (by simp [hh]) rfl rfl j₂ ⟨.pendingLookupAndIncrement q, some e₂⟩ p₂ (by simp) rfl).symm

/-- Undisturbed handlers forward one response for each request that is no broadcast. -/
theorem forwardsOnce_of_undisturbed (hr : Run proxy p₀ h c)
    (hdone : ∀ i < c.tasks.length, Finished c i) (hu : Undisturbed Op.pendingKey h) :
    ForwardsOnce h := by
  intro x₁ j₁ e₁ p₁ y₁ x₂ j₂ e₂ p₂ y₂ q r d₁ d₂ hh₁ hh₂ hlast₁ hlast₂ hb₁ hb₂ hd₁ hsent₁ hd₂ hsent₂
  have hfin : ∀ j d, .recv j d ∈ h → Finished c j := by
    intro j d hd
    obtain ⟨p, hp⟩ := hr.exists_task hd
    exact hdone j (List.getElem?_eq_some_iff.mp hp).1
  rcases List.append_eq_append_iff.mp (hh₁.symm.trans hh₂) with ⟨z, rfl, hz⟩ | ⟨z, rfl, hz⟩
  · cases z with
    | nil =>
      simp only [List.nil_append, List.cons.injEq, Event.act.injEq] at hz
      exact hz.1.1
    | cons e z =>
      obtain ⟨rfl, rfl⟩ := List.cons.inj hz
      exact forwardsOnce_ordered hh₂ hr hu (hfin j₁ d₁ hd₁) hlast₁ hlast₂ hb₁ hd₁ hsent₁
  · cases z with
    | nil =>
      simp only [List.nil_append, List.cons.injEq, Event.act.injEq] at hz
      exact hz.1.1.symm
    | cons e z =>
      obtain ⟨rfl, rfl⟩ := List.cons.inj hz
      exact (forwardsOnce_ordered hh₁ hr hu (hfin j₂ d₂ hd₂) hlast₂ hlast₁ hb₂ hd₂ hsent₂).symm

/-- Linearizability of the table of pending requests: where no handler works on a sequence
number between the acts of another one on it, the run is one of the handlers one at a time, no
handler removes a later entry, and every request but a broadcast is answered once. -/
theorem pending_linearizable (hr : Run proxy p₀ h c)
    (hdone : ∀ i < c.tasks.length, Finished c i) (htime : OnlyTicks h)
    (hu : Undisturbed Op.pendingKey h) : Linearizable p₀ h c :=
  ⟨serializable_of_undisturbed hr hdone htime hu, removesOwn_of_undisturbed hr hu,
    forwardsOnce_of_undisturbed hr hdone hu⟩

/-- The handlers of two establishments and of a response to the first one overlap. -/
theorem pending_linearizable_established :
    Linearizable (Proxy.new [upfX, upfY] .roundRobin) answeredEarly.1 answeredEarly.2 := by
  have hlength : answeredEarly.2.tasks.length = 3 := by decide +kernel
  have henv : answeredEarly.1.all (fun e => match e with
      | .env _ _ => false
      | _ => true) = true := by decide +kernel
  apply pending_linearizable answeredEarly_run
  · intro i hi
    rw [hlength] at hi
    obtain rfl | rfl | rfl : i = 0 ∨ i = 1 ∨ i = 2 := by omega
    · exact ⟨_, rfl⟩
    · exact ⟨_, rfl⟩
    · exact ⟨_, rfl⟩
  · intro e pre he
    cases List.all_eq_true.mp henv _ he
  · exact undisturbed_of_sorted (by decide +kernel)

/-- A request with a sequence number that is in use is received only after the response to the
earlier request was sent to its origin. -/
def ReusesAnswered (h : History) : Prop :=
  ∀ x j d' y i d q, h = x ++ .recv j d' :: y → d'.Asks q → .recv i d ∈ x → d.Asks q →
    ∃ k r ok, .recv k r ∈ x ∧ r.Answers q ∧ ⟨.sendTo r.data d.src, ok⟩ ∈ acts k x

/-- One SMF has established session 7, and the response arrives twice; both copies are looked
up before the first of them is removed. -/
def answeredTwice : History × Config Op.Res Proxy Datagram :=
  played [upfX, upfY] .roundRobin (oneByOne 0
    [message .sessionEstablishmentRequest (some 7) 1 smfA] ++
    [.recv (message .sessionEstablishmentResponse (some 7) 1 upfX),
      .recv (message .sessionEstablishmentResponse (some 7) 1 upfX),
      .step 1 true, .step 1 true, .step 1 true, .step 2 true, .step 2 true, .step 2 true,
      .step 1 true, .step 1 true, .step 1 true, .step 2 true, .step 2 true, .step 2 true])

/-- Both copies of the response are forwarded. -/
theorem pending_linearizable_fails :
    Run proxy (Proxy.new [upfX, upfY] .roundRobin) answeredTwice.1 answeredTwice.2 ∧
    (∀ i < answeredTwice.2.tasks.length, Finished answeredTwice.2 i) ∧
    OnlyTicks answeredTwice.1 ∧ ReusesAnswered answeredTwice.1 ∧
    ¬Linearizable (Proxy.new [upfX, upfY] .roundRobin) answeredTwice.1 answeredTwice.2 := by
  let d₀ := message .sessionEstablishmentRequest (some 7) 1 smfA
  let d₁ := message .sessionEstablishmentResponse (some 7) 1 upfX
  have hr : Run proxy (Proxy.new [upfX, upfY] .roundRobin) answeredTwice.1 answeredTwice.2 :=
    played_run _ _ _
  have hrecv : receptions answeredTwice.1 = [(0, d₀), (1, d₁), (2, d₁)] := rfl
  have hlength : answeredTwice.2.tasks.length = 3 := by decide +kernel
  have henv : answeredTwice.1.all (fun e => match e with
      | .env _ _ => false
      | _ => true) = true := by decide +kernel
  have hanswers : ∀ q, ¬d₁.Asks q := by
    rintro q ⟨hh, hhd, _, hreq⟩
    cases hhd
    cases hreq
  refine ⟨hr, ?_, ?_, ?_, ?_⟩
  · intro i hi
    rw [hlength] at hi
    obtain rfl | rfl | rfl : i = 0 ∨ i = 1 ∨ i = 2 := by omega
    · exact ⟨_, rfl⟩
    · exact ⟨_, rfl⟩
    · exact ⟨_, rfl⟩
  · intro e pre he
    cases List.all_eq_true.mp henv _ he
  · -- there is one request only
    intro x j d' y i d q hsplit hask' hi hask
    have hfirst : ∀ k r, .recv k r ∈ answeredTwice.1 → r.Asks q → k = 0 := by
      intro k r hk hr'
      rw [← mem_receptions_iff, hrecv] at hk
      simp only [List.mem_cons, Prod.mk.injEq, List.not_mem_nil, or_false] at hk
      rcases hk with ⟨rfl, _⟩ | ⟨_, rfl⟩ | ⟨_, rfl⟩
      · rfl
      · exact absurd hr' (hanswers q)
      · exact absurd hr' (hanswers q)
    obtain rfl := hfirst j d' (by rw [hsplit]; simp) hask'
    obtain rfl := hfirst i d (by rw [hsplit]; simp [hi]) hask
    rw [hsplit] at hr
    exact absurd hi hr.recv_new
  · rintro ⟨_, _, honce⟩
    have hat₁ : actAt answeredTwice.1 17 =
        some (1, ⟨.pendingLookupAndIncrement 1, some (smfA, false, 1, false)⟩) := by decide +kernel
    have hat₂ : actAt answeredTwice.1 20 =
        some (2, ⟨.pendingLookupAndIncrement 1, some (smfA, false, 2, false)⟩) := by decide +kernel
    have hlast₁ : lastRecord 1 (answeredTwice.1.take 17) = some (0, smfA) := by decide +kernel
    have hlast₂ : lastRecord 1 (answeredTwice.1.take 20) = some (0, smfA) := by decide +kernel
    have hsent₁ : ⟨.sendTo [0x21] smfA, true⟩ ∈ acts 1 answeredTwice.1 := by decide +kernel
    have hsent₂ : ⟨.sendTo [0x21] smfA, true⟩ ∈ acts 2 answeredTwice.1 := by decide +kernel
    have hd₁ : .recv 1 d₁ ∈ answeredTwice.1 := by simp [← mem_receptions_iff, hrecv]
    have hd₂ : .recv 2 d₁ ∈ answeredTwice.1 := by simp [← mem_receptions_iff, hrecv]
    obtain ⟨p₁, hsplit₁⟩ := split_at hat₁
    obtain ⟨p₂, hsplit₂⟩ := split_at hat₂
    have hsame := honce _ 1 _ p₁ _ _ 2 _ p₂ _ 1 (0, smfA) d₁ d₁ hsplit₁ hsplit₂ hlast₁ hlast₂ rfl rfl
      hd₁ hsent₁ hd₂ hsent₂
    cases hsame

end PfcpProxy
