import PfcpProxy.Conduct

/-!
# Histories of the proxy

What an entry of a history says about the shared state around it, and how the two tables
follow from the entries that write them.
-/

namespace PfcpProxy

open AtomicTasks

abbrev History := List (Event Op.Res Proxy Datagram Env)

variable {p₀ : Proxy} {h h₁ h₂ : History} {c : Config Op.Res Proxy Datagram}

/-- The header SEID of the datagram is `s`. -/
def Carries (d : Datagram) (s : UInt64) : Prop := ∃ h, d.header = some h ∧ h.seid = some s

/-- The handler has returned. -/
def Finished (c : Config Op.Res Proxy Datagram) (i : ℕ) : Prop :=
  ∃ d, c.tasks[i]? = some ⟨d, .done ()⟩

lemma Finished.path {i : ℕ} {d : Datagram} (hdone : Finished c i) (hr : Run proxy p₀ h c)
    (hd : .recv i d ∈ h) : Path (handleMessage d) (acts i h) (.done ()) := by
  obtain ⟨d', hdone⟩ := hdone
  obtain rfl := hr.recv_unique hd (hr.recv_mem hdone)
  exact hr.path hdone

/-! ### Names for concrete runs -/

def smfA : SocketAddr := .v4 0x0a000001 8805

def smfB : SocketAddr := .v4 0x0a000002 8805

def upfX : SocketAddr := .v4 0x0a010001 8805

def upfY : SocketAddr := .v4 0x0a010002 8805

/-- A datagram with a given header; its bytes are only forwarded. -/
def message (t : MsgType) (seid : Option UInt64) (sequence : UInt32) (src : SocketAddr) :
    Datagram :=
  ⟨[0x21], src, some ⟨t, seid, sequence⟩⟩

/-- The schedule that handles datagrams one after the other, starting with task `i`; every
send succeeds. -/
def oneByOne : ℕ → List Datagram → List (Choice Datagram Env Bool)
  | _, [] => []
  | i, d :: ds => .recv d :: List.replicate 16 (.step i true) ++ oneByOne (i + 1) ds

/-- The history and the configuration a schedule leads to. -/
def played (backends : List SocketAddr) (strategy : LoadBalancingStrategy)
    (ys : List (Choice Datagram Env Bool)) : History × Config Op.Res Proxy Datagram :=
  replay proxy ys ([], ⟨Proxy.new backends strategy, []⟩)

lemma played_run (backends : List SocketAddr) (strategy : LoadBalancingStrategy)
    (ys : List (Choice Datagram Env Bool)) :
    Run proxy (Proxy.new backends strategy) (played backends strategy ys).1
      (played backends strategy ys).2 :=
  replay_run ys .nil

/-- One SMF has established session 7 on the first backend. -/
def establishedByA : History × Config Op.Res Proxy Datagram :=
  played [upfX, upfY] .roundRobin (oneByOne 0
    [message .sessionEstablishmentRequest (some 7) 1 smfA])

/-- An establishment and its response, handled one after the other. -/
def answeredEstablishment : History × Config Op.Res Proxy Datagram :=
  played [upfX, upfY] .roundRobin (oneByOne 0
    [message .sessionEstablishmentRequest (some 7) 1 smfA,
      message .sessionEstablishmentResponse (some 7) 1 upfX])

lemma answeredEstablishment_run :
    Run proxy (Proxy.new [upfX, upfY] .roundRobin) answeredEstablishment.1
      answeredEstablishment.2 :=
  played_run _ _ _

/-- Two establishments whose handlers overlap; the response to the first one is handled before they
have returned. -/
def answeredEarly : History × Config Op.Res Proxy Datagram :=
  played [upfX, upfY] .roundRobin
    ([.recv (message .sessionEstablishmentRequest (some 7) 1 smfA),
      .recv (message .sessionEstablishmentRequest (some 8) 2 smfB)] ++
    (List.replicate 10 [.step 0 true, .step 1 true]).flatten ++
    [.recv (message .sessionEstablishmentResponse (some 7) 1 upfX)] ++
    (List.replicate 8 [.step 2 true, .step 1 true, .step 0 true]).flatten)

lemma answeredEarly_run :
    Run proxy (Proxy.new [upfX, upfY] .roundRobin) answeredEarly.1 answeredEarly.2 :=
  played_run _ _ _

/-- The only entry of its kind splits a history in one way. -/
lemma split_unique {α : Type} {P : α → Bool} {p t x y : List α} {a b : α}
    (h : x ++ b :: y = p ++ a :: t) (hp : p.all (fun e => !P e) = true)
    (ht : t.all (fun e => !P e) = true) (hb : P b = true) : x = p ∧ b = a ∧ y = t := by
  simp only [List.all_eq_true, Bool.not_eq_true'] at hp ht
  have hbp : b ∉ p := fun hm => by simp [hp b hm] at hb
  have hbt : b ∉ t := fun hm => by simp [ht b hm] at hb
  have heq := (List.append_cons_inj_of_notMem hbp hbt).mp h.symm
  exact ⟨heq.1.symm, heq.2.1.symm, heq.2.2.symm⟩

/-- The act an entry of a history records. -/
def actAt (h : History) (n : ℕ) : Option (ℕ × Act Op.Res) :=
  h[n]?.bind (fun e => match e with
    | .act i a _ => some (i, a)
    | _ => none)

lemma split_at {n i : ℕ} {a : Act Op.Res} (hn : actAt h n = some (i, a)) :
    ∃ pre, h = h.take n ++ .act i a pre :: h.drop (n + 1) := by
  obtain ⟨e, he, hact⟩ := Option.bind_eq_some_iff.mp hn
  obtain ⟨hlt, rfl⟩ := List.getElem?_eq_some_iff.mp he
  have hsplit := (List.take_append_drop n h).symm
  rw [List.drop_eq_getElem_cons hlt] at hsplit
  cases hev : h[n] with
  | act j b pre =>
    rw [hev] at hact hsplit
    cases hact
    exact ⟨pre, hsplit⟩
  | recv j d =>
    rw [hev] at hact
    cases hact
  | env e pre =>
    rw [hev] at hact
    cases hact

lemma notMem_acts_of_all {P : Event Op.Res Proxy Datagram Env → Bool} {i : ℕ} {a : Act Op.Res}
    (hall : h.all (fun e => !P e) = true) (ha : ∀ pre, P (.act i a pre) = true) :
    a ∉ acts i h := by
  intro hm
  obtain ⟨pre, hp⟩ := mem_acts_iff.mp hm
  rw [List.all_eq_true] at hall
  simpa [ha pre] using hall _ hp

/-- A send that failed. -/
def isFailedSend : Event Op.Res Proxy Datagram Env → Bool
  | .act _ ⟨.sendTo _ _, ok⟩ _ => !ok
  | _ => false

/-! ### Acts -/

/-- Every act in a history is in accordance with the conduct of some received datagram. -/
theorem conduct_of_act {i : ℕ} {a : Act Op.Res} {pre : Proxy}
    (hr : Run proxy p₀ (h₁ ++ .act i a pre :: h₂) c) :
    ∃ d, .recv i d ∈ h₁ ∧ Conduct d (acts i h₁) a.op :=
  hr.act_guarded handleMessage_conduct

/-- An act answers from the state before it, which is the state its prefix reaches. -/
lemma act_exec {i : ℕ} {a : Act Op.Res} {pre : Proxy}
    (hr : Run proxy p₀ (h₁ ++ .act i a pre :: h₂) c) :
    ∃ c₁ w, Run proxy p₀ h₁ c₁ ∧ c₁.shared = pre ∧ a.res = (exec a.op w pre).1 := by
  obtain ⟨c₁, c₂, hr₁, hs, _⟩ := hr.split
  cases hs with
  | act _ m o k w hj => exact ⟨c₁, w, hr₁, rfl, rfl⟩

/-- A task acts only after its datagram, and in accordance with the conduct of that. -/
lemma conduct_of_recv {i : ℕ} {a : Act Op.Res} {pre : Proxy} {d : Datagram}
    (hr : Run proxy p₀ (h₁ ++ .act i a pre :: h₂) c)
    (hd : .recv i d ∈ h₁ ++ .act i a pre :: h₂) : .recv i d ∈ h₁ ∧ Conduct d (acts i h₁) a.op := by
  obtain ⟨d', hd', hconduct⟩ := conduct_of_act hr
  obtain rfl : d = d' := hr.recv_unique hd (List.mem_append_left _ hd')
  exact ⟨hd', hconduct⟩

/-! ### The session table -/

/-- The SEID whose entry an operation writes. -/
def Op.sessionKey : Op → Option UInt64
  | .sessionInsert s _ _ => some s
  | .sessionRemove s => some s
  | _ => none

lemma exec_lookupFull_of_ne {o : Op} {s : UInt64} (ho : o.sessionKey ≠ some s) (w : Bool)
    (p : Proxy) : (exec o w p).2.sessionTable.lookupFull s = p.sessionTable.lookupFull s := by
  cases o with
  | sessionInsert s' u a =>
    have hs : s ≠ s' := fun h => ho (by rw [h]; rfl)
    simp [exec, SessionTable.lookupFull_insert, hs]
  | sessionRemove s' =>
    have hs : s ≠ s' := fun h => ho (by rw [h]; rfl)
    simp [exec, SessionTable.lookupFull_remove, hs]
  | _ => rfl

/-- While nothing is removed under a SEID, it keeps an entry that was inserted under it. -/
theorem lookupFull_of_insert {s : UInt64} (hr : Run proxy p₀ h c)
    (hkeep : ∀ i, ⟨.sessionRemove s, ()⟩ ∉ acts i h)
    (hex : ∃ i u a, ⟨.sessionInsert s u a, ()⟩ ∈ acts i h) :
    ∃ i u a, ⟨.sessionInsert s u a, ()⟩ ∈ acts i h ∧
      c.shared.sessionTable.lookupFull s = some (u, a) := by
  induction hr with
  | nil =>
    obtain ⟨i, u, a, hm⟩ := hex
    simp at hm
  | @snoc h c c' e hr hs ih =>
    have hkeep' : ∀ i, ⟨.sessionRemove s, ()⟩ ∉ acts i h :=
      fun i hm => hkeep i (by simp [hm])
    cases hs with
    | recv m =>
      obtain ⟨i, u, a, hm⟩ := hex
      obtain ⟨j, u', a', hj, hget⟩ := ih hkeep' ⟨i, u, a, by simpa using hm⟩
      exact ⟨j, u', a', by simpa using hj, hget⟩
    | env e =>
      obtain ⟨i, u, a, hm⟩ := hex
      obtain ⟨j, u', a', hj, hget⟩ := ih hkeep' ⟨i, u, a, by simpa using hm⟩
      exact ⟨j, u', a', by simpa using hj, by simpa [proxy] using hget⟩
    | act i m o k w hi =>
      by_cases ho : o.sessionKey = some s
      · cases o with
        | sessionInsert s' u a =>
          cases ho
          exact ⟨i, u, a, by simp, by simp [proxy, exec, SessionTable.lookupFull_insert]⟩
        | sessionRemove s' =>
          cases ho
          exact absurd (by simp) (hkeep i)
        | _ => cases ho
      · obtain ⟨j, u, a, hm⟩ := hex
        have hm' : ⟨.sessionInsert s u a, ()⟩ ∈ acts j h := by
          by_cases hij : i = j
          · subst hij
            rw [acts_append, acts_act_self, acts_nil, List.mem_append, List.mem_singleton] at hm
            rcases hm with hm | hm
            · exact hm
            · have hop : o = .sessionInsert s u a := (congrArg Act.op hm).symm
              exact absurd (by rw [hop]; rfl) ho
          · simpa [acts_act_of_ne hij] using hm
        obtain ⟨j', u', a', hj', hget⟩ := ih hkeep' ⟨j, u, a, hm'⟩
        refine ⟨j', u', a', by simp [hj'], ?_⟩
        simpa [proxy, exec_lookupFull_of_ne ho] using hget

/-- Every entry was inserted by some task. -/
theorem session_origin (hp₀ : p₀.sessionTable = Table.empty) {s : UInt64} {u a : SocketAddr}
    (hr : Run proxy p₀ h c) (hget : c.shared.sessionTable.lookupFull s = some (u, a)) :
    ∃ i, ⟨.sessionInsert s u a, ()⟩ ∈ acts i h := by
  induction hr with
  | nil => simp [hp₀, SessionTable.lookupFull] at hget
  | @snoc h c c' e hr hs ih =>
    cases hs with
    | recv d =>
      obtain ⟨i, hi⟩ := ih hget
      exact ⟨i, by simp [hi]⟩
    | env e =>
      obtain ⟨i, hi⟩ := ih (by simpa [proxy] using hget)
      exact ⟨i, by simp [hi]⟩
    | act i d o k w hi =>
      by_cases ho : o.sessionKey = some s
      · cases o with
        | sessionInsert s' u' a' =>
          cases ho
          simp only [proxy, exec, SessionTable.lookupFull_insert, if_true, Option.some.injEq,
            Prod.mk.injEq] at hget
          obtain ⟨rfl, rfl⟩ := hget
          exact ⟨i, by simp⟩
        | sessionRemove s' =>
          cases ho
          simp [proxy, exec, SessionTable.lookupFull_remove] at hget
        | _ => cases ho
      · have hget' : c.shared.sessionTable.lookupFull s = some (u, a) := by
          rw [← hget]
          exact (exec_lookupFull_of_ne ho w c.shared).symm
        obtain ⟨j, hj⟩ := ih hget'
        exact ⟨j, by rw [acts_append]; exact List.mem_append_left _ hj⟩

theorem lookupFull_of_others {s : UInt64} (hr : Run proxy p₀ h c)
    (hother : ∀ i d, .recv i d ∈ h → ¬Carries d s) :
    c.shared.sessionTable.lookupFull s = p₀.sessionTable.lookupFull s := by
  induction hr with
  | nil => rfl
  | @snoc h c c' e hr hs ih =>
    rw [← ih fun i d hd => hother i d (List.mem_append_left _ hd)]
    have hr' := hr.snoc hs
    cases hs with
    | recv d => rfl
    | env e => simp [proxy]
    | act i d o k w hi =>
      apply exec_lookupFull_of_ne
      intro hkey
      obtain ⟨d', hd', h', hh', hI⟩ := conduct_of_act hr'
      refine hother i d' (List.mem_append_left _ hd') ⟨h', hh', ?_⟩
      cases o with
      | sessionInsert s' u a =>
        obtain rfl : s' = s := by simpa [Op.sessionKey] using hkey
        exact hI.1
      | sessionRemove s' =>
        obtain rfl : s' = s := by simpa [Op.sessionKey] using hkey
        exact hI.1
      | _ => cases hkey

end PfcpProxy
