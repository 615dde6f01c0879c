import PfcpProxy.Histories

/-!
# Session affinity

Once the request that established a session has been forwarded, every interleaving keeps
the session on its UPF until a deletion removes it.
-/

namespace PfcpProxy

open AtomicTasks

/-- Among the acts `l` of the handler of `d`, routing came to the decision `dec`. -/
def Routed (d : Datagram) (l : Acts) (dec : RoutingDecision) : Prop :=
  ∃ h l₁ l₂ l₃, d.header = some h ∧ l = l₁ ++ l₂ ++ l₃ ∧
    Path (recordMessageReceived h.msgType) l₁ (.done ()) ∧
    Path (routeMessage h.msgType h.seid d.src) l₂ (.done dec)

/-- Operations on the session table. -/
def Op.onSession : Op → Bool
  | .sessionInsert _ _ _ | .sessionLookup _ | .sessionLookupFull _ | .sessionRemove _
  | .sessionCountByUpf _ => true
  | _ => false

/-! ### What the handlers do with the session table -/

lemma Op.not_onSession_of_relay {o : Op} (ho : o.isRelay = true) : o.onSession = false := by
  cases o <;> first | rfl | cases ho

lemma forwardRequest_offSession (data : List UInt8) (src : SocketAddr) (q : UInt32)
    (dec : RoutingDecision) :
    Only (fun o => o.onSession = false) (forwardRequest data src q dec) :=
  (forwardRequest_only data src q dec).mono fun _ => Op.not_onSession_of_relay

lemma recordMessageReceived_offSession (t : MsgType) :
    Only (fun o => o.onSession = false) (recordMessageReceived t) :=
  ⟨rfl, fun _ => ⟨rfl, fun _ => trivial⟩⟩

/-- Everything a routed handler does to the session table belongs to its routing. -/
lemma Routed.path_of_mem {d : Datagram} {h : Header} {l : Acts} {dec : RoutingDecision}
    {q : Handler Unit} (hr : Routed d l dec) (hd : d.header = some h)
    (ht : isSmfRequest h.msgType = true) (hp : Path (handleMessage d) l q) {a : Act Op.Res}
    (ha : a ∈ l) (hs : a.op.onSession = true) :
    ∃ l', Path (routeMessage h.msgType h.seid d.src) l' (.done dec) ∧ a ∈ l' := by
  obtain ⟨h', l₁, l₂, l₃, hd', rfl, hp₁, hp₂⟩ := hr
  obtain rfl : h = h' := by simpa [hd] using hd'
  rw [handleMessage_smf hd ht, List.append_assoc] at hp
  have hp₃ := hp₂.bind_rest (hp₁.bind_rest hp)
  have hoff₁ := hp₁.only (recordMessageReceived_offSession _)
  have hoff₃ := hp₃.only (forwardRequest_offSession _ _ _ _)
  simp only [List.mem_append] at ha
  rcases ha with (ha | ha) | ha
  · simp [hoff₁ a ha] at hs
  · exact ⟨l₂, hp₂, ha⟩
  · simp [hoff₃ a ha] at hs

/-- A lookup that finds a UPF decides the routing of every request that makes one. -/
lemma routeMessage_of_lookup {t : MsgType} {s : UInt64} {a u : SocketAddr} {l : Acts}
    {dec : RoutingDecision}
    (ht : t = .sessionModificationRequest ∨ t = .sessionDeletionRequest ∨
      isDefaultRequest t = true)
    (hp : Path (routeMessage t (some s) a) l (.done dec))
    (hl : ⟨.sessionLookup s, some u⟩ ∈ l) : dec = .single u := by
  have haff (t : MsgType) : Guarded (fun _ _ => True)
      (fun dec l => ⟨.sessionLookup s, some u⟩ ∈ l → dec = .single u)
      (routeAffinity t (some s)) [] := by
    simp only [routeAffinity, recordRoutingDecision, recordSessionDeleted, Prog.call_bind,
      guarded_act, true_and]
    intro r
    cases r with
    | none => simp
    | some u' =>
      simp only [Bool.false_eq_true, if_false, if_true, Prog.call_bind, guarded_act, true_and]
      intro _
      by_cases hdel : t = .sessionDeletionRequest
      · simp [hdel, eq_comm]
      · simp [hdel, eq_comm]
  have hdef : Guarded (fun _ _ => True)
      (fun dec l => ⟨.sessionLookup s, some u⟩ ∈ l → dec = .single u)
      (routeDefault (some s) a) [] := by
    simp only [routeDefault, recordRoutingDecision, Prog.call_bind, guarded_act, true_and]
    intro r
    cases r with
    | some u' => simp [eq_comm]
    | none =>
      simp only [guarded_bind]
      apply guarded_selectUpf (fun _ _ _ => trivial)
      intro r x hx
      have hno : ⟨.sessionLookup s, some u⟩ ∉ x := fun hm => by simpa [Op.isSelection] using hx _ hm
      cases r with
      | none => simp [hno]
      | some u' => simp [hno]
  have hg : Guarded (fun _ _ => True)
      (fun dec l => ⟨.sessionLookup s, some u⟩ ∈ l → dec = .single u)
      (routeMessage t (some s) a) [] := by
    obtain rfl | rfl | ht := ht
    · exact haff _
    · exact haff _
    · rw [routeMessage_of_default ht]
      exact hdef
  exact (hg.path hp) hl

lemma Routed.append {d : Datagram} {l : Acts} {dec : RoutingDecision} (h : Routed d l dec)
    (l' : Acts) : Routed d (l ++ l') dec := by
  obtain ⟨hd, l₁, l₂, l₃, hhd, rfl, hp₁, hp₂⟩ := h
  exact ⟨hd, l₁, l₂, l₃ ++ l', hhd, List.append_assoc _ _ _, hp₁, hp₂⟩

lemma Routed.looked_up {d : Datagram} {t : MsgType} {s : UInt64} {q : UInt32} {l : Acts}
    {dec : RoutingDecision} (hd : d.header = some ⟨t, some s, q⟩)
    (ht : t = .sessionModificationRequest ∨ t = .sessionDeletionRequest ∨
      isDefaultRequest t = true)
    (h : Routed d l dec) : ∃ r, ⟨.sessionLookup s, r⟩ ∈ l := by
  obtain ⟨hd', l₁, l₂, l₃, hhd', rfl, _, hp⟩ := h
  obtain rfl := Option.some.inj (hd.symm.trans hhd')
  have hlook : ∃ k, routeMessage t (some s) d.src = .act (.sessionLookup s) k := by
    obtain rfl | rfl | ht := ht
    · exact ⟨_, rfl⟩
    · exact ⟨_, rfl⟩
    · rw [routeMessage_of_default ht]
      exact ⟨_, rfl⟩
  obtain ⟨k, hk⟩ := hlook
  rw [hk] at hp
  cases hp with
  | cons r hp => exact ⟨r, by simp⟩

/-- An establishment request is routed to the UPF it is recorded for. -/
lemma routeEstablishment_inserts {s : UInt64} {a u : SocketAddr} {l : Acts}
    (hp : Path (routeMessage .sessionEstablishmentRequest (some s) a) l (.done (.single u))) :
    ⟨.sessionInsert s u a, ()⟩ ∈ l := by
  have hg : Guarded (fun _ _ => True)
      (fun dec l => ∀ u, dec = .single u → ⟨.sessionInsert s u a, ()⟩ ∈ l)
      (routeMessage .sessionEstablishmentRequest (some s) a) [] := by
    simp only [routeMessage, routeEstablishment, guarded_bind]
    apply guarded_selectUpf (fun _ _ _ => trivial)
    intro r x _
    cases r with
    | none => simp
    | some u => simp [recordRoutingDecision, recordSessionEstablished]
  exact hg.path hp u rfl

/-- An establishment request is sent only where it is recorded. -/
lemma establishment_sends {d : Datagram} {s : UInt64} {q : UInt32}
    (hd : d.header = some ⟨.sessionEstablishmentRequest, some s, q⟩) :
    Guarded (fun l o => ∀ data dst, o = .sendTo data dst → ⟨.sessionInsert s dst d.src, ()⟩ ∈ l)
      (fun _ _ => True) (handleMessage d) [] := by
  rw [handleMessage_smf hd rfl]
  simp only [recordMessageReceived, routeMessage, routeEstablishment, Prog.call_bind,
    Prog.act_bind, guarded_act, reduceCtorEq, false_implies, implies_true, true_and, guarded_bind]
  intro _ _
  apply guarded_selectUpf
  · intro l o ho data dst hsend
    simp [hsend, Op.isSelection] at ho
  intro r x _
  cases r with
  | none => simp [forwardRequest]
  | some u =>
    simp only [recordRoutingDecision, recordSessionEstablished, forwardRequest, recordMessageSent,
      Bool.false_eq_true, if_false, Prog.call_bind, Prog.pure_eq, guarded_act, guarded_done,
      reduceCtorEq, false_implies, implies_true, true_and]
    intro _ _ _ _
    constructor
    · rintro data dst ⟨rfl, rfl⟩
      simp
    · intro r
      cases r <;> simp [Prog.call]

lemma routed_run {d : Datagram} {h : Header} (hd : d.header = some h)
    (ht : isSmfRequest h.msgType = true) (ω : ℕ → Bool) (p : Proxy) :
    Routed d (run exec (handleMessage d) ω p).acts
      (run exec (routeMessage h.msgType h.seid d.src) (fun n => ω (n + 2))
        (run exec (recordMessageReceived h.msgType) ω p).state).value := by
  rw [handleMessage_smf hd ht, run_bind, run_bind]
  refine ⟨h, _, _, _, hd, (List.append_assoc _ _ _).symm, run_path _ _ _ _, ?_⟩
  exact run_path _ _ _ _

/-! ### Handlers that follow one lookup -/

/-- The handler of `d` performs `o` once, and sends the datagram to the target it reads off
the answer, if there is one, and nowhere else. -/
def Follows (d : Datagram) (o : Op) (target : o.Res → Option SocketAddr) : Prop :=
  Guarded
    (fun l o' => (∀ data dst, o' = .sendTo data dst →
        data = d.data ∧ ∃ r, ⟨o, r⟩ ∈ l ∧ target r = some dst) ∧
      (o' = o → ∀ b ∈ l, ¬b.op = o))
    (fun _ l => ∃ r, ⟨o, r⟩ ∈ l ∧ ∀ v, target r = some v → ∃ ok, ⟨.sendTo d.data v, ok⟩ ∈ l)
    (handleMessage d) []

section Follows

variable {d : Datagram} {o : Op} {target : o.Res → Option SocketAddr} {l : Acts} {p : Handler Unit}

lemma Follows.sent (hf : Follows d o target) (hp : Path (handleMessage d) l p)
    {data : List UInt8} {dst : SocketAddr} {ok : Bool} (hsent : ⟨.sendTo data dst, ok⟩ ∈ l) :
    data = d.data ∧ ∃ r, ⟨o, r⟩ ∈ l ∧ target r = some dst := by
  obtain ⟨l₁, l₂, rfl⟩ := List.append_of_mem hsent
  obtain ⟨hdata, r, hlook, htarget⟩ := (hf.at_act hp).1 data dst rfl
  exact ⟨hdata, r, List.mem_append_left _ hlook, htarget⟩

lemma Follows.answer_eq (hf : Follows d o target) (hp : Path (handleMessage d) l p) {r r' : o.Res}
    (hr : ⟨o, r⟩ ∈ l) (hr' : ⟨o, r'⟩ ∈ l) : r = r' := by
  have hsame := hf.once (fun o' => o' = o) hp (fun _ _ hI => hI.2) hr hr' rfl rfl
  simpa using hsame

end Follows

/-- A report is sent to the SMF recorded together with its source. -/
lemma follows_report {d : Datagram} {s : UInt64} {q : UInt32}
    (hd : d.header = some ⟨.sessionReportRequest, some s, q⟩) :
    Follows d (.sessionLookupFull s)
      (fun r => r.bind fun e => if e.1 = d.src then some e.2 else none) := by
  simp only [Follows, handleMessage, hd, recordMessageReceived, handleUpfRequest, isUpfRequest,
    if_true, Prog.call_bind, Prog.act_bind, guarded_act]
  refine ⟨by simp, fun _ => ⟨by simp, fun _ => ⟨by simp, fun r => ?_⟩⟩⟩
  rcases r with _ | ⟨u, a⟩
  · exact ⟨none, by simp, by simp⟩
  by_cases hu : u = d.src
  · simp only [hu, if_true, Prog.pure_eq, guarded_act]
    refine ⟨by simp, fun _ => ⟨⟨?_, by simp⟩, fun ok => ?_⟩⟩
    · rintro data dst ⟨rfl, rfl⟩
      simp
    · cases ok with
      | true =>
        refine ⟨some (d.src, a), by simp, fun v hv => ?_⟩
        obtain rfl : a = v := by simpa using hv
        simp
      | false =>
        refine ⟨by simp, fun _ => ⟨some (d.src, a), by simp, fun v hv => ?_⟩⟩
        obtain rfl : a = v := by simpa using hv
        simp
  · simp only [hu, if_false, Prog.pure_eq, guarded_done]
    exact ⟨some (u, a), by simp, by simp [hu]⟩

/-! ### The entry of a session -/

/-- A handler writes the session table once. -/
lemma conduct_writes_once {d : Datagram} (l : Acts) (o : Op) (hI : Conduct d l o)
    (ho : o.writesSession = true) : ∀ b ∈ l, ¬b.op.writesSession = true := by
  obtain ⟨h, _, hI⟩ := hI
  intro b hb
  cases o with
  | sessionInsert s v a => simp [(Op.not_writes_of_quiet (hI.2.2.1 b hb)).1]
  | sessionRemove s => simp [(Op.not_writes_of_quiet (hI.2.2.1 b hb)).1]
  | _ => simp [Op.writesSession] at ho

/-- In the history `h` the SEID `s` belongs to the establishment request `d` of task `e`,
which is routed to `u`: there is no other establishment request for `s`, and whatever else
carries `s` is received after `d` was sent. -/
structure SoleEstablishment (h : History) (e : ℕ) (d : Datagram) (s : UInt64) (u : SocketAddr) :
    Prop where
  received : .recv e d ∈ h
  header : ∃ q, d.header = some ⟨.sessionEstablishmentRequest, some s, q⟩
  routed : Routed d (acts e h) (.single u)
  sole : ∀ j d' q, .recv j d' ∈ h →
    d'.header = some ⟨.sessionEstablishmentRequest, some s, q⟩ → j = e
  first : ∀ x j d' y, h = x ++ .recv j d' :: y → Carries d' s → j ≠ e →
    ∃ dst ok, ⟨.sendTo d.data dst, ok⟩ ∈ acts e x

section Entry

variable {p₀ : Proxy} {h h₁ h₂ : History} {c c₁ : Config Op.Res Proxy Datagram} {e j : ℕ}
  {d d' : Datagram} {s : UInt64} {u : SocketAddr}

/-- Whenever a task works on behalf of another message that carries `s`, the establishment
is recorded. -/
lemma SoleEstablishment.recorded (hs : SoleEstablishment (h₁ ++ h₂) e d s u)
    (hr : Run proxy p₀ (h₁ ++ h₂) c) (hj : .recv j d' ∈ h₁) (hc : Carries d' s) (hje : j ≠ e) :
    ∃ v, ⟨.sessionInsert s v d.src, ()⟩ ∈ acts e h₁ := by
  obtain ⟨x, y, rfl⟩ := List.append_of_mem hj
  obtain ⟨dst, ok, hsent⟩ := hs.first x j d' (y ++ h₂) (by simp) hc hje
  obtain ⟨q, hq⟩ := hs.header
  obtain ⟨c₁, hr₁⟩ : ∃ c₁, Run proxy p₀ x c₁ := by
    rw [List.append_assoc] at hr
    exact hr.of_append
  have hrecv : .recv e d ∈ x := by
    obtain ⟨z, pre, z', rfl⟩ := exists_split_of_mem_acts hsent
    obtain ⟨d'', hd'', _⟩ := conduct_of_act hr₁
    obtain rfl : d = d'' := hr.recv_unique hs.received (by simp [hd''])
    simp [hd'']
  obtain ⟨p, _, hpath⟩ := hr₁.handler_path hrecv
  obtain ⟨l₁, l₂, hl⟩ := List.append_of_mem hsent
  rw [hl] at hpath
  have hins := (establishment_sends hq).at_act hpath d.data dst rfl
  exact ⟨dst, by rw [acts_append, hl]; simpa using .inl hins⟩

/-- Until the SEID is removed, only the establishment request records an entry for it. -/
lemma SoleEstablishment.inserted (hs : SoleEstablishment (h₁ ++ h₂) e d s u)
    (hr : Run proxy p₀ (h₁ ++ h₂) c) (hkeep : ∀ i, ⟨.sessionRemove s, ()⟩ ∉ acts i h₁)
    {v a : SocketAddr} (hj : ⟨.sessionInsert s v a, ()⟩ ∈ acts j h₁) :
    v = u ∧ a = d.src := by
  obtain ⟨q, hq⟩ := hs.header
  obtain ⟨x, pre, y, rfl⟩ := exists_split_of_mem_acts hj
  have hr' : Run proxy p₀ (x ++ .act j ⟨.sessionInsert s v a, ()⟩ pre :: (y ++ h₂)) c := by
    simpa using hr
  obtain ⟨d', hd', hh, hhd, hsd, hsrc, _, hkind⟩ := conduct_of_act hr'
  have hrecv : .recv j d' ∈ x ++ .act j ⟨.sessionInsert s v a, ()⟩ pre :: y ++ h₂ := by simp [hd']
  rcases hkind with hest | ⟨hdef, hlook⟩
  · -- the only establishment request for `s`: it inserts what it was routed to
    obtain rfl : j = e := hs.sole j d' hh.sequence hrecv (by rw [hhd, ← hest, ← hsd])
    obtain rfl : d = d' := hr.recv_unique hs.received hrecv
    obtain ⟨p, hp, hpath⟩ := hr.handler_path hs.received
    have hact : ⟨.sessionInsert s v a, ()⟩ ∈
        acts j (x ++ .act j ⟨.sessionInsert s v a, ()⟩ pre :: y ++ h₂) := by simp
    obtain ⟨l, hl, hmem⟩ := hs.routed.path_of_mem hq rfl hpath hact rfl
    have hins := routeEstablishment_inserts hl
    have hidle : Idle [] := by simp [Idle]
    have honce := Guarded.once (fun o => o.writesSession = true)
      (routeMessage_conduct hq rfl hidle) hl conduct_writes_once hmem hins rfl rfl
    simpa using honce
  · -- the last arm finds the entry of `s`, so it does not insert
    exfalso
    have hje : j ≠ e := by
      rintro rfl
      obtain rfl : d = d' := hr.recv_unique hs.received hrecv
      rw [hq, Option.some.injEq] at hhd
      subst hhd
      simp [isDefaultRequest] at hdef
    obtain ⟨z, pre', z', rfl⟩ := exists_split_of_mem_acts hlook
    have hr'' : Run proxy p₀ (z ++ .act j ⟨.sessionLookup s, none⟩ pre' ::
        (z' ++ .act j ⟨.sessionInsert s v a, ()⟩ pre :: (y ++ h₂))) c := by simpa using hr
    obtain ⟨hd'', _⟩ := conduct_of_recv hr'' (by simpa using hrecv)
    obtain ⟨c₁, w, hr₁, rfl, hres⟩ := act_exec hr''
    obtain ⟨v', hins⟩ := SoleEstablishment.recorded (by simpa using hs) hr'' hd''
      ⟨hh, hhd, hsd⟩ hje
    obtain ⟨_, v'', a'', _, hget⟩ := lookupFull_of_insert hr₁
      (fun i hm => hkeep i (by simp [hm])) ⟨e, v', d.src, hins⟩
    simp [exec, SessionTable.lookup_eq, hget] at hres

/-- Until the SEID is removed, other tasks find the entry of the establishment request. -/
lemma SoleEstablishment.lookupFull (hs : SoleEstablishment (h₁ ++ h₂) e d s u)
    (hr : Run proxy p₀ (h₁ ++ h₂) c) (hkeep : ∀ i, ⟨.sessionRemove s, ()⟩ ∉ acts i h₁)
    (hr₁ : Run proxy p₀ h₁ c₁) (hj : .recv j d' ∈ h₁) (hc : Carries d' s) (hje : j ≠ e) :
    c₁.shared.sessionTable.lookupFull s = some (u, d.src) := by
  obtain ⟨v, hins⟩ := hs.recorded hr hj hc hje
  obtain ⟨i, v', a', hmem, hget⟩ := lookupFull_of_insert hr₁ hkeep ⟨e, v, d.src, hins⟩
  obtain ⟨rfl, rfl⟩ := hs.inserted hr hkeep hmem
  exact hget

lemma SoleEstablishment.act_found (hs : SoleEstablishment (h₁ ++ h₂) e d s u)
    (hr : Run proxy p₀ (h₁ ++ h₂) c) (hkeep : ∀ i, ⟨.sessionRemove s, ()⟩ ∉ acts i h₁)
    (hj : .recv j d' ∈ h₁ ++ h₂) (hc : Carries d' s) (hje : j ≠ e) {a : Act Op.Res}
    (ha : a ∈ acts j h₁) :
    ∃ p w, a.res = (exec a.op w p).1 ∧ p.sessionTable.lookupFull s = some (u, d.src) := by
  obtain ⟨x, pre, y, rfl⟩ := exists_split_of_mem_acts ha
  have hr' : Run proxy p₀ (x ++ .act j a pre :: (y ++ h₂)) c := by simpa using hr
  obtain ⟨hjx, _⟩ := conduct_of_recv hr' (by simpa using hj)
  obtain ⟨c₁, w, hr₁, rfl, hres⟩ := act_exec hr'
  refine ⟨c₁.shared, w, hres, ?_⟩
  exact SoleEstablishment.lookupFull (by simpa using hs) hr' (fun i hm => hkeep i (by simp [hm]))
    hr₁ hjx hc hje

/-- Session affinity under any interleaving: as long as nobody removes the SEID of an
established session, whoever is routed by it or looks it up is led to the UPF of its
establishment. -/
theorem session_affinity {backends : List SocketAddr} {strategy : LoadBalancingStrategy}
    {t : MsgType} {q : UInt32}
    (hr : Run proxy (Proxy.new backends strategy) (h₁ ++ h₂) c)
    (hs : SoleEstablishment (h₁ ++ h₂) e d s u)
    (hkeep : ∀ i, ⟨.sessionRemove s, ()⟩ ∉ acts i h₁)
    (hj : .recv j d' ∈ h₁ ++ h₂) (hd' : d'.header = some ⟨t, some s, q⟩) :
    (t = .sessionModificationRequest ∨ t = .sessionDeletionRequest ∨ isDefaultRequest t = true →
      (∀ dec, Routed d' (acts j h₁) dec → dec = .single u) ∧
      (∀ r dec, ⟨.sessionLookup s, r⟩ ∈ acts j h₁ → Routed d' (acts j (h₁ ++ h₂)) dec →
        dec = .single u)) ∧
    (t = .sessionReportRequest → ∀ r, ⟨.sessionLookupFull s, r⟩ ∈ acts j h₁ →
      (∀ data dst ok, ⟨.sendTo data dst, ok⟩ ∈ acts j (h₁ ++ h₂) →
        data = d'.data ∧ d'.src = u ∧ dst = d.src) ∧
      (Finished c j → d'.src = u → ∃ ok, ⟨.sendTo d'.data d.src, ok⟩ ∈ acts j (h₁ ++ h₂))) := by
  have hne (ht : t ≠ .sessionEstablishmentRequest) : j ≠ e := by
    rintro rfl
    obtain rfl : d = d' := hr.recv_unique hs.received hj
    obtain ⟨q', hq⟩ := hs.header
    rw [hq] at hd'
    cases hd'
    exact ht rfl
  -- what a lookup answers before the removal
  have hfind (a : Act Op.Res) (ha : a ∈ acts j h₁) (ht : t ≠ .sessionEstablishmentRequest) :=
    hs.act_found hr hkeep hj ⟨_, hd', rfl⟩ (hne ht) ha
  obtain ⟨p, _, hpath⟩ := hr.handler_path hj
  constructor
  · intro ht
    suffices hlooked : ∀ r dec, ⟨.sessionLookup s, r⟩ ∈ acts j h₁ →
        Routed d' (acts j (h₁ ++ h₂)) dec → dec = .single u by
      refine ⟨fun dec hdec => ?_, hlooked⟩
      obtain ⟨r, hr⟩ := hdec.looked_up hd' ht
      exact hlooked r dec hr (acts_append j h₁ h₂ ▸ hdec.append _)
    intro r dec hlook hdec
    have hsmf : isSmfRequest t = true := by
      rw [isSmfRequest_iff]
      tauto
    have hest : t ≠ .sessionEstablishmentRequest := by
      rintro rfl
      simp [isDefaultRequest] at ht
    obtain ⟨p', w, hres, hget⟩ := hfind _ hlook hest
    have hr' : r = some u := by simpa [exec, SessionTable.lookup_eq, hget] using hres
    subst hr'
    have hmem : ⟨.sessionLookup s, some u⟩ ∈ acts j (h₁ ++ h₂) := by simp [hlook]
    obtain ⟨l, hl, hin⟩ := hdec.path_of_mem hd' hsmf hpath hmem rfl
    exact routeMessage_of_lookup ht hl hin
  · rintro rfl r hlook
    obtain ⟨p', w, hres, hget⟩ := hfind _ hlook (by simp)
    have hr' : r = some (u, d.src) := by simpa [exec, hget] using hres
    subst hr'
    have hmem : ⟨.sessionLookupFull s, some (u, d.src)⟩ ∈ acts j (h₁ ++ h₂) := by simp [hlook]
    have hfollows := follows_report hd'
    refine ⟨?_, ?_⟩
    · intro data dst ok hsent
      obtain ⟨hdata, r, hfound, htarget⟩ := hfollows.sent hpath hsent
      obtain rfl := hfollows.answer_eq hpath hfound hmem
      simp only [Option.bind_some, Option.ite_none_right_eq_some, Option.some.injEq] at htarget
      exact ⟨hdata, htarget.1.symm, htarget.2.symm⟩
    · rintro hdone rfl
      have hpath' := hdone.path hr hj
      obtain ⟨r, hfound, hsent⟩ := hfollows.path hpath'
      obtain rfl := hfollows.answer_eq hpath' hfound hmem
      exact hsent d.src (by simp)

end Entry

/-- Session 7, established on the first backend, is modified there. -/
theorem session_affinity_modified :
    ∃ h c dec, Run proxy (Proxy.new [upfX, upfY] .roundRobin) h c ∧
      Routed (message .sessionModificationRequest (some 7) 2 smfA) (acts 1 h) dec ∧
      dec = .single upfX := by
  let ω : ℕ → Bool := fun _ => true
  let d₀ := message .sessionEstablishmentRequest (some 7) 1 smfA
  let d₁ := message .sessionModificationRequest (some 7) 2 smfA
  let p₀ := Proxy.new [upfX, upfY] .roundRobin
  let p₁ := (run exec (handleMessage d₀) ω p₀).state
  let t₀ : History := trail proxy 0 (handleMessage d₀) ω p₀
  let t₁ : History := trail proxy 1 (handleMessage d₁) ω p₁
  let h : History := ([] ++ .recv 0 d₀ :: t₀) ++ .recv 1 d₁ :: t₁
  have hr : Run proxy p₀ h _ := (Run.nil.handle d₀ ω).handle d₁ ω
  have hr' : Run proxy p₀ (h ++ []) _ := (List.append_nil h).symm ▸ hr
  have h₀ : acts 0 (h ++ []) = (run exec (handleMessage d₀) ω p₀).acts := by
    simp [h, t₀, t₁, acts_trail_of_ne, proxy]
  have h₁ : acts 1 h = (run exec (handleMessage d₁) ω p₁).acts := by
    simp [h, t₀, t₁, acts_trail_of_ne, proxy]
  have hrouted₀ := routed_run (d := d₀) rfl rfl ω p₀
  have hrouted₁ := routed_run (d := d₁) rfl rfl ω p₁
  have hsplit {x y : History} {j : ℕ} {d : Datagram} (hxy : h ++ [] = x ++ .recv j d :: y) :
      x = [] ++ .recv 0 d₀ :: t₀ ∧ j = 1 ∧ d = d₁ ∨ j = 0 ∧ d = d₀ := by
    rw [List.append_nil] at hxy
    exact recv_split_two hxy (recv_notMem_trail _ _ _ _) (recv_notMem_trail _ _ _ _)
  have hrecv₁ : .recv 1 d₁ ∈ h ++ [] := by simp [h]
  refine ⟨h, _, _, hr, h₁ ▸ hrouted₁, (session_affinity hr' ⟨by simp [h], ⟨1, rfl⟩,
    h₀ ▸ hrouted₀, ?_, ?_⟩ ?_ hrecv₁ rfl).1 (.inl rfl) |>.2 (some upfX) _ ?_ ?_⟩
  · intro j d q hj hd
    obtain ⟨x, y, hxy⟩ := List.append_of_mem hj
    rcases hsplit hxy with ⟨_, rfl, rfl⟩ | ⟨rfl, _⟩
    · cases hd
    · rfl
  · intro x j d y hxy _ hj
    rcases hsplit hxy with ⟨rfl, _⟩ | ⟨rfl, _⟩
    · refine ⟨upfX, true, ?_⟩
      simp only [acts_recv, List.nil_append, t₀, acts_trail_self]
      decide
    · exact absurd rfl hj
  · intro i
    by_cases h0 : i = 0
    · subst h0
      rw [← List.append_nil h, h₀]
      decide
    by_cases h1 : i = 1
    · subst h1
      rw [h₁]
      decide
    · simp [h, t₀, t₁, acts_trail_of_ne (Ne.symm h0), acts_trail_of_ne (Ne.symm h1)]
  · rw [h₁]
    decide
  · rw [List.append_nil, h₁]
    exact hrouted₁

end PfcpProxy
