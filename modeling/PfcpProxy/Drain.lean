import PfcpProxy.Origins

/-!
# Draining a backend

A backend that is removed from the pool and not added again gets no new sessions, except from
handlers that were already running, and no requests but those of the sessions it has.
-/

namespace PfcpProxy

open AtomicTasks

/-! ### What a handler looks up -/

/-- A lookup is under the SEID of the datagram, which is neither an establishment nor broadcast. -/
def LooksUpOwn (h : Header) (o : Op) : Prop :=
  ∀ s, o = .sessionLookup s → h.seid = some s ∧ h.msgType ≠ .sessionEstablishmentRequest ∧
    isBroadcastRequest h.msgType = false

lemma looksUpOwn_of_ne {h : Header} {o : Op} (ho : ∀ s, o ≠ .sessionLookup s) : LooksUpOwn h o :=
  fun s hs => absurd hs (ho s)

lemma looksUpOwn_of_selection {h : Header} {o : Op} (ho : o.isSelection = true) :
    LooksUpOwn h o := by
  apply looksUpOwn_of_ne
  rintro s rfl
  cases ho

lemma routeMessage_looksUpOwn {h : Header} (hsmf : isSmfRequest h.msgType = true)
    (a : SocketAddr) : Only (LooksUpOwn h) (routeMessage h.msgType h.seid a) := by
  have hother {o : Op} (ho : ∀ s, o ≠ .sessionLookup s) : LooksUpOwn h o := looksUpOwn_of_ne ho
  have hselect : Only (LooksUpOwn h) selectUpf :=
    selectUpf_only.mono fun o ho => looksUpOwn_of_selection ho
  have hrecord (b b' : Bool) : Only (LooksUpOwn h) (recordRoutingDecision b b') := by
    cases b <;> cases b' <;> exact ⟨hother (by simp), fun _ => trivial⟩
  have haffinity (hne : h.msgType ≠ .sessionEstablishmentRequest)
      (hb : isBroadcastRequest h.msgType = false) :
      Only (LooksUpOwn h) (routeAffinity h.msgType h.seid) := by
    cases hs : h.seid with
    | none => trivial
    | some s =>
      simp only [routeAffinity, Prog.call_bind, only_act]
      refine ⟨?_, fun r => ?_⟩
      · rintro s' hs'
        cases hs'
        exact ⟨hs, hne, hb⟩
      cases r with
      | none => trivial
      | some u =>
        refine only_bind (hrecord true false) fun _ => ?_
        split
        · exact ⟨hother (by simp), fun _ => ⟨hother (by simp), fun _ => trivial⟩⟩
        · trivial
  rcases (isSmfRequest_iff h.msgType).mp hsmf with hb | ht | ht | ht | hdef
  · rw [routeMessage_of_broadcast hb]
    exact ⟨hother (by simp), fun _ => ⟨hother (by simp), fun _ => trivial⟩⟩
  · rw [ht]
    refine only_bind hselect fun r => ?_
    cases r with
    | none => trivial
    | some u =>
      refine only_bind (hrecord false false) fun _ => ⟨hother (by simp), fun _ => ?_⟩
      cases h.seid with
      | none => trivial
      | some s => exact ⟨hother (by simp), fun _ => trivial⟩
  · have hroute := haffinity (by rw [ht]; simp) (by rw [ht]; rfl)
    rw [ht] at hroute ⊢
    exact hroute
  · have hroute := haffinity (by rw [ht]; simp) (by rw [ht]; rfl)
    rw [ht] at hroute ⊢
    exact hroute
  · obtain ⟨_, hb, hne, _⟩ := isDefaultRequest_ne hdef
    rw [routeMessage_of_default hdef]
    cases hs : h.seid with
    | none =>
      refine only_bind hselect fun r => ?_
      cases r with
      | none => trivial
      | some u => exact only_bind (hrecord false false) fun _ => trivial
    | some s =>
      simp only [routeDefault, Prog.call_bind, only_act]
      refine ⟨?_, fun r => ?_⟩
      · rintro s' hs'
        cases hs'
        exact ⟨hs, hne, hb⟩
      cases r with
      | some u => exact only_bind (hrecord true false) fun _ => trivial
      | none =>
        refine only_bind hselect fun r => ?_
        cases r with
        | none => trivial
        | some u =>
          exact only_bind (hrecord false false) fun _ => ⟨hother (by simp), fun _ => trivial⟩

lemma handleMessage_looksUpOwn {d : Datagram} {h : Header} (hd : d.header = some h)
    (hsmf : isSmfRequest h.msgType = true) : Only (LooksUpOwn h) (handleMessage d) := by
  rw [handleMessage_smf hd hsmf]
  refine only_bind ?_ fun _ => only_bind (routeMessage_looksUpOwn hsmf d.src) fun dec => ?_
  · exact ⟨looksUpOwn_of_ne (by simp), fun _ => ⟨looksUpOwn_of_ne (by simp), fun _ => trivial⟩⟩
  · apply (forwardRequest_only d.data d.src h.sequence dec).mono
    rintro o ho
    apply looksUpOwn_of_ne
    rintro s rfl
    cases ho

/-! ### Runs -/

section Runs

variable {p₀ : Proxy} {h₁ h₂ : History} {c₁ c : Config Op.Res Proxy Datagram} {i : ℕ} {d : Datagram}
  {h : Header} {s : UInt64} {u a : SocketAddr}

lemma exec_state (o : Op) (w w' : Bool) (p : Proxy) (_ : (exec o w p).1 = (exec o w' p).1) :
    (exec o w p).2 = (exec o w' p).2 := by
  cases o <;> rfl

/-- A session was there before, or was inserted since. -/
lemma session_since (hr₁ : Run proxy p₀ h₁ c₁) (hr : Run proxy p₀ (h₁ ++ h₂) c)
    (hget : c.shared.sessionTable.lookupFull s = some (u, a)) :
    c₁.shared.sessionTable.lookupFull s = some (u, a) ∨
      ∃ i, ⟨.sessionInsert s u a, ()⟩ ∈ acts i h₂ := by
  induction h₂ using List.reverseRecOn generalizing c with
  | nil =>
    rw [List.append_nil] at hr
    obtain rfl := hr.config_unique exec_state hr₁
    exact .inl hget
  | append_singleton l e ih =>
    rw [← List.append_assoc, run_snoc_iff] at hr
    obtain ⟨c', hr', hs⟩ := hr
    have hkeep (hget : c'.shared.sessionTable.lookupFull s = some (u, a)) :
        c₁.shared.sessionTable.lookupFull s = some (u, a) ∨
          ∃ i, ⟨.sessionInsert s u a, ()⟩ ∈ acts i (l ++ [e]) := by
      refine (ih hr' hget).imp id fun ⟨i, hi⟩ => ⟨i, ?_⟩
      rw [acts_append]
      exact List.mem_append_left _ hi
    cases hs with
    | recv d => exact hkeep hget
    | env e => exact hkeep (by simpa [proxy] using hget)
    | act i d o k w hi =>
      by_cases ho : o.sessionKey = some s
      · cases o with
        | sessionInsert s' u' a' =>
          cases ho
          simp only [proxy, exec, SessionTable.lookupFull_insert, if_true, Option.some.injEq,
            Prod.mk.injEq] at hget
          obtain ⟨rfl, rfl⟩ := hget
          exact .inr ⟨i, by simp⟩
        | sessionRemove s' =>
          cases ho
          simp [proxy, exec, SessionTable.lookupFull_remove] at hget
        | _ => cases ho
      · apply hkeep
        rw [← hget]
        exact (exec_lookupFull_of_ne ho w c'.shared).symm

/-- From here on the address is not in the pool. -/
structure Retired (p₀ : Proxy) (h₁ h₂ : History) (u : SocketAddr) : Prop where
  absent : u ∉ pooled p₀ h₁
  notAdded : ∀ pre, .env (.addBackend u) pre ∉ h₂

/-- The sessions on a retired backend: those it had, and those that handlers insert which were
already running. -/
def Remaining (c₁ : Config Op.Res Proxy Datagram) (h₂ : History) (u : SocketAddr) (s : UInt64) :
    Prop :=
  c₁.shared.sessionTable.lookup s = some u ∨
    ∃ i < c₁.tasks.length, ∃ a, ⟨.sessionInsert s u a, ()⟩ ∈ acts i h₂

lemma Remaining.append {h₃ : History} (hs : Remaining c₁ h₂ u s) :
    Remaining c₁ (h₂ ++ h₃) u s := by
  refine hs.imp id fun ⟨i, hi, a, hins⟩ => ⟨i, hi, a, ?_⟩
  rw [acts_append]
  exact List.mem_append_left _ hins

lemma Retired.of_append {h₃ : History} (hu : Retired p₀ h₁ (h₂ ++ h₃) u) : Retired p₀ h₁ h₂ u :=
  ⟨hu.absent, fun pre he => hu.notAdded pre (List.mem_append_left _ he)⟩

lemma Retired.not_offered (hu : Retired p₀ h₁ h₂ u) (hr : Run proxy p₀ (h₁ ++ h₂) c)
    (hd : .recv i d ∈ h₂) : ¬Offered (acts i (h₁ ++ h₂)) u := by
  intro ho
  obtain ⟨x, y, rfl⟩ := List.append_of_mem hd
  rw [← List.append_assoc] at hr ho
  obtain ⟨y₁, y₂, rfl, hmem⟩ := offered_since hr ho
  rw [List.append_assoc] at hmem
  rcases mem_pooled_append hmem with habsent | ⟨pre, hadd⟩
  · exact hu.absent habsent
  · refine hu.notAdded pre ?_
    simp only [List.mem_append, List.mem_cons, reduceCtorEq, false_or] at hadd ⊢
    exact hadd.imp id .inl

lemma started_before_or_since (hr₁ : Run proxy p₀ h₁ c₁) (hd : .recv i d ∈ h₁ ++ h₂) :
    i < c₁.tasks.length ∨ .recv i d ∈ h₂ := by
  rcases List.mem_append.mp hd with hd | hd
  · obtain ⟨p, hp⟩ := hr₁.exists_task hd
    exact .inl (List.getElem?_eq_some_iff.mp hp).1
  · exact .inr hd

/-- The sessions on a retired backend only get fewer, apart from those that running handlers
insert. -/
lemma Retired.remaining (hu : Retired p₀ h₁ h₂ u) (hr₁ : Run proxy p₀ h₁ c₁)
    (hr : Run proxy p₀ (h₁ ++ h₂) c) (hget : c.shared.sessionTable.lookup s = some u) :
    Remaining c₁ h₂ u s := by
  rw [SessionTable.lookup_eq, Option.map_eq_some_iff] at hget
  obtain ⟨⟨u', a⟩, hget, rfl⟩ := hget
  rcases session_since hr₁ hr hget with hbefore | ⟨i, hins⟩
  · left
    rw [SessionTable.lookup_eq, hbefore]
    rfl
  · right
    obtain ⟨x, pre, y, rfl⟩ := exists_split_of_mem_acts hins
    rw [← List.append_assoc] at hr
    obtain ⟨d, hd, _⟩ := conduct_of_act hr
    obtain ⟨_, _, ho⟩ := hr.act_guarded handleMessage_targets
    rcases started_before_or_since hr₁ hd with hi | hd'
    · exact ⟨i, hi, a, hins⟩
    · have hno := hu.not_offered (by rw [← List.append_assoc]; exact hr) (List.mem_append_left _ hd')
      rw [← List.append_assoc, acts_append] at hno
      exact absurd (Offered.append ho _) hno

/-- Draining: once a backend is out of the pool and is not added again, the sessions on it are
among those it had, or that handlers which were already running record; and a request that an SMF
sends from then on reaches it only if it belongs to such a session: it is no establishment and no
broadcast. -/
theorem drained (hr₁ : Run proxy p₀ h₁ c₁) (hr : Run proxy p₀ (h₁ ++ h₂) c)
    (hu : Retired p₀ h₁ h₂ u) :
    (∀ s, c.shared.sessionTable.lookup s = some u → Remaining c₁ h₂ u s) ∧
    ∀ i d h data ok, .recv i d ∈ h₂ → d.header = some h → isSmfRequest h.msgType = true →
      ⟨.sendTo data u, ok⟩ ∈ acts i (h₁ ++ h₂) →
        ∃ s, h.seid = some s ∧ Remaining c₁ h₂ u s ∧
          h.msgType ≠ .sessionEstablishmentRequest ∧ isBroadcastRequest h.msgType = false := by
  refine ⟨fun s hget => hu.remaining hr₁ hr hget, ?_⟩
  intro i d h data ok hd hh hsmf hsent
  obtain ⟨x, pre, y, hsplit⟩ := exists_split_of_mem_acts hsent
  have hr' := hsplit ▸ hr
  obtain ⟨d', hd', htarget⟩ := hr'.act_guarded handleMessage_targets
  have hrecv : .recv i d' ∈ h₁ ++ h₂ := by
    rw [hsplit]
    exact List.mem_append_left _ hd'
  obtain rfl := hr.recv_unique (List.mem_append_right _ hd) hrecv
  have hknown := (htarget h hh hsmf).append (acts i (.act i ⟨.sendTo data u, ok⟩ pre :: y))
  rw [← acts_append, ← hsplit] at hknown
  rcases hknown with ho | ⟨s, hlook⟩
  · exact absurd ho (hu.not_offered hr hd)
  · obtain ⟨_, _, hpath⟩ := hr.handler_path hrecv
    obtain ⟨hs, hne, hb⟩ := hpath.only (handleMessage_looksUpOwn hh hsmf) _ hlook s rfl
    refine ⟨s, hs, ?_, hne, hb⟩
    -- the session was there when it was looked up, which was after the reception
    have hlook₂ : ⟨.sessionLookup s, some u⟩ ∈ acts i h₂ := by
      obtain ⟨z, t, rfl⟩ := List.append_of_mem hd
      rw [← List.append_assoc] at hr hlook
      rw [acts_append, hr.acts_of_recv_new, List.nil_append] at hlook
      rw [acts_append]
      exact List.mem_append_right _ hlook
    obtain ⟨z, pre', t, rfl⟩ := exists_split_of_mem_acts hlook₂
    rw [← List.append_assoc] at hr
    obtain ⟨c₂, w, hr₂, rfl, hres⟩ := act_exec hr
    exact (hu.of_append.remaining hr₁ hr₂ hres.symm).append

end Runs

/-- The first backend is removed under session 7; then that session is modified, and another one
established. -/
def removedThenUsed : History × Config Op.Res Proxy Datagram :=
  played [upfX, upfY] .roundRobin
    (oneByOne 0 [message .sessionEstablishmentRequest (some 7) 1 smfA] ++
      [.env (.removeBackend upfX)] ++
      oneByOne 1 [message .sessionModificationRequest (some 7) 2 smfA,
        message .sessionEstablishmentRequest (some 8) 3 smfA])

/-- Session 7 is still on the removed backend, so it was there at the removal. -/
theorem drained_removedThenUsed : ∃ c₁,
    Run proxy (Proxy.new [upfX, upfY] .roundRobin) (removedThenUsed.1.take 14) c₁ ∧
      Remaining c₁ (removedThenUsed.1.drop 14) upfX 7 := by
  have hr : Run proxy (Proxy.new [upfX, upfY] .roundRobin)
      (removedThenUsed.1.take 14 ++ removedThenUsed.1.drop 14) removedThenUsed.2 := by
    rw [List.take_append_drop]
    exact played_run _ _ _
  obtain ⟨c₁, hr₁⟩ := hr.of_append
  have habsent : upfX ∉ pooled (Proxy.new [upfX, upfY] .roundRobin) (removedThenUsed.1.take 14) := by
    decide +kernel
  have henv : (removedThenUsed.1.drop 14).all (fun e => !isEnv e) = true := by decide +kernel
  have hretired : Retired (Proxy.new [upfX, upfY] .roundRobin) (removedThenUsed.1.take 14)
      (removedThenUsed.1.drop 14) upfX :=
    ⟨habsent, not_env_of_all henv _⟩
  exact ⟨c₁, hr₁, (drained hr₁ hr hretired).1 7 (by decide +kernel)⟩

end PfcpProxy
