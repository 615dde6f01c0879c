import PfcpProxy.Histories

/-!
# Pending requests along a history

Which request the entry under a sequence number belongs to, how long the entry stays, and
what each kind of handler does with it.
-/

namespace PfcpProxy

open AtomicTasks

/-- The datagram is a request with the sequence number `q`. -/
def Datagram.Asks (d : Datagram) (q : UInt32) : Prop :=
  ∃ h, d.header = some h ∧ h.sequence = q ∧ isRequest h.msgType = true

/-- The datagram is handled as a response with the sequence number `q`. -/
def Datagram.Answers (d : Datagram) (q : UInt32) : Prop :=
  ∃ h, d.header = some h ∧ h.sequence = q ∧ isRequest h.msgType = false

lemma Datagram.Asks.not_answers {d : Datagram} {q q' : UInt32} (h : d.Asks q) :
    ¬d.Answers q' := by
  obtain ⟨hd, he, _, hreq⟩ := h
  rintro ⟨hd', he', _, hresp⟩
  rw [he, Option.some.injEq] at he'
  subst he'
  rw [hreq] at hresp
  cases hresp

/-! ### Entries and the acts that write them -/

/-- The sequence number whose pending entry an operation writes. -/
def Op.pendingKey : Op → Option UInt32
  | .pendingInsert q _ _ _ => some q
  | .pendingLookupAndIncrement q => some q
  | .pendingRemove q => some q
  | _ => none

lemma exec_pending_of_ne {o : Op} {q : UInt32} (ho : o.pendingKey ≠ some q) (w : Bool)
    (p : Proxy) : (exec o w p).2.pendingRequests.get q = p.pendingRequests.get q := by
  cases o with
  | pendingInsert q' a b f =>
    have hq : q ≠ q' := fun h => ho (by rw [h]; rfl)
    simp [exec, PendingRequests.insert, hq]
  | pendingLookupAndIncrement q' =>
    have hq : q ≠ q' := fun h => ho (by rw [h]; rfl)
    simp [exec, PendingRequests.lookupAndIncrement, hq]
  | pendingRemove q' =>
    have hq : q ≠ q' := fun h => ho (by rw [h]; rfl)
    simp [exec, PendingRequests.remove, hq]
  | _ => rfl

/-- The environment only ever takes pending entries away. -/
lemma get_of_envStep {e : Env} {p : Proxy} {q : UInt32} {info : RequestInfo}
    (h : (envStep e p).pendingRequests.get q = some info) :
    p.pendingRequests.get q = some info := by
  cases e with
  | cleanupStale =>
    simp only [envStep, PendingRequests.cleanupStale, Table.get_retain] at h
    exact (Option.filter_eq_some_iff.mp h).1
  | _ => exact h

/-- An entry outlives a step of the environment that leaves it younger than 60 s. -/
lemma envStep_get {e : Env} {p : Proxy} {q : UInt32} {info : RequestInfo}
    (h : p.pendingRequests.get q = some info)
    (hage : (envStep e p).now - info.timestamp < fromSecs 60) :
    (envStep e p).pendingRequests.get q = some info := by
  cases e with
  | cleanupStale =>
    simp only [envStep, PendingRequests.cleanupStale, Table.get_retain, Option.filter_eq_some_iff]
    exact ⟨h, by simpa [envStep] using hage⟩
  | _ => exact h

section Entries

variable {p₀ : Proxy} {h h₁ h₂ : History} {c c' : Config Op.Res Proxy Datagram} {q : UInt32}

lemma now_le_step {e : Event Op.Res Proxy Datagram Env} (hs : Step proxy c e c') :
    c.shared.now ≤ c'.shared.now := by
  cases hs with
  | recv d => exact Nat.le_refl _
  | act i d o k w hi => exact (exec_now o w c.shared).ge
  | env e => exact now_le_envStep e c.shared

/-- An entry nobody touches stays until it is 60 s old. -/
theorem entry_kept {info : RequestInfo} (hr : Run proxy p₀ (h₁ ++ h₂) c)
    (hentry : ∀ c₁, Run proxy p₀ h₁ c₁ → c₁.shared.pendingRequests.get q = some info)
    (hno : ∀ i, ∀ a ∈ acts i h₂, a.op.pendingKey ≠ some q)
    (hage : c.shared.now - info.timestamp < fromSecs 60) :
    c.shared.pendingRequests.get q = some info := by
  induction h₂ using List.reverseRecOn generalizing c with
  | nil => exact hentry c (by simpa using hr)
  | append_singleton l e ih =>
    rw [← List.append_assoc, run_snoc_iff] at hr
    obtain ⟨c', hr', hs⟩ := hr
    have hnow := now_le_step hs
    have hget := ih hr' (fun i a ha => hno i a (by simp [ha]))
      (Nat.lt_of_le_of_lt (Nat.sub_le_sub_right hnow _) hage)
    cases hs with
    | recv d => exact hget
    | act i d o k w hi =>
      rw [← hget]
      exact exec_pending_of_ne (hno i ⟨o, (proxy.exec o w c'.shared).1⟩ (by simp)) _ _
    | env e => exact envStep_get hget hage

/-- What a request has recorded stays until somebody touches it or it is 60 s old. -/
lemma entry_of_insert {i : ℕ} {a : SocketAddr} {b f : Bool} {pre : Proxy}
    (hr : Run proxy p₀ (h₁ ++ .act i ⟨.pendingInsert q a b f, ()⟩ pre :: h₂) c)
    (hno : ∀ j, ∀ x ∈ acts j h₂, x.op.pendingKey ≠ some q)
    (hage : c.shared.now - pre.now < fromSecs 60) :
    c.shared.pendingRequests.get q = some ⟨a, pre.now, b, 0, f⟩ := by
  rw [List.append_cons] at hr
  apply entry_kept hr ?_ hno hage
  intro c₁ hr₁
  obtain ⟨c₀, hr₀, hs⟩ := run_snoc_iff.mp hr₁
  cases hs
  simp [proxy, exec, PendingRequests.insert]

/-- The task and the origin a record under `q` is made for. -/
def Event.recordOf (q : UInt32) : Event Op.Res Proxy Datagram Env → Option (ℕ × SocketAddr)
  | .act i ⟨.pendingInsert q' a _ _, _⟩ _ => if q' = q then some (i, a) else none
  | _ => none

/-- The request recorded last under `q`: its task and its origin. -/
def lastRecord (q : UInt32) (h : History) : Option (ℕ × SocketAddr) :=
  h.reverse.findSome? (Event.recordOf q)

lemma lastRecord_snoc (q : UInt32) (h : History) (e : Event Op.Res Proxy Datagram Env) :
    lastRecord q (h ++ [e]) = (Event.recordOf q e).or (lastRecord q h) := by
  simp only [lastRecord, List.reverse_append, List.reverse_singleton, List.singleton_append,
    List.findSome?_cons]
  cases Event.recordOf q e <;> rfl

lemma lastRecord_append_eq (h₁ h₂ : History) :
    lastRecord q (h₁ ++ h₂) = (lastRecord q h₂).or (lastRecord q h₁) := by
  rw [lastRecord, List.reverse_append, List.findSome?_append]
  rfl

lemma lastRecord_append {r : ℕ × SocketAddr} (h₁ : History) (hl : lastRecord q h₂ = some r) :
    lastRecord q (h₁ ++ h₂) = some r := by
  rw [lastRecord_append_eq, hl, Option.some_or]

lemma recordOf_of_ne {i : ℕ} {a : Act Op.Res} {pre : Proxy} (ha : a.op.pendingKey ≠ some q) :
    Event.recordOf q (.act i a pre) = none := by
  obtain ⟨o, r⟩ := a
  cases o with
  | pendingInsert q' a b f =>
    have hq : q' ≠ q := fun h => ha (by rw [h]; rfl)
    simp [Event.recordOf, hq]
  | _ => rfl

lemma mem_of_lastRecord {i : ℕ} {a : SocketAddr} (hl : lastRecord q h = some (i, a)) :
    ∃ b f, ⟨.pendingInsert q a b f, ()⟩ ∈ acts i h := by
  obtain ⟨e, he, hrec⟩ := List.exists_of_findSome?_eq_some hl
  rw [List.mem_reverse] at he
  cases e with
  | act j x pre =>
    obtain ⟨o, r⟩ := x
    cases o with
    | pendingInsert q' a' b f =>
      simp only [Event.recordOf, Option.ite_none_right_eq_some, Option.some.injEq,
        Prod.mk.injEq] at hrec
      obtain ⟨rfl, rfl, rfl⟩ := hrec
      exact ⟨b, f, mem_acts_iff.mpr ⟨pre, he⟩⟩
    | _ => cases hrec
  | recv j d => cases hrec
  | env e pre => cases hrec

/-- A pending entry belongs to the request recorded last under its sequence number, if one was
recorded since `h₁`; otherwise it was there after `h₁`. -/
theorem entry_origin {info : RequestInfo} (hr : Run proxy p₀ (h₁ ++ h₂) c)
    (hget : c.shared.pendingRequests.get q = some info) :
    (∃ i, lastRecord q h₂ = some (i, info.originAddr)) ∨
      lastRecord q h₂ = none ∧ ∃ c₁, Run proxy p₀ h₁ c₁ ∧ c₁.shared.pendingRequests.get q ≠ none := by
  induction h₂ using List.reverseRecOn generalizing c info with
  | nil => exact .inr ⟨rfl, c, by simpa using hr, by simp [hget]⟩
  | append_singleton l e ih =>
    rw [← List.append_assoc, run_snoc_iff] at hr
    obtain ⟨c', hr', hs⟩ := hr
    rw [lastRecord_snoc]
    cases hs with
    | recv d => exact ih hr' hget
    | env e => exact ih hr' (get_of_envStep hget)
    | act i d o k w hi =>
      by_cases ho : o.pendingKey = some q
      · cases o with
        | pendingInsert q' a b f =>
          obtain rfl : q' = q := by simpa [Op.pendingKey] using ho
          simp only [proxy, exec, PendingRequests.insert, Table.get_insert_self,
            Option.some.injEq] at hget
          subst hget
          exact .inl ⟨i, by simp [Event.recordOf]⟩
        | pendingLookupAndIncrement q' =>
          obtain rfl : q' = q := by simpa [Op.pendingKey] using ho
          simp only [proxy, exec, PendingRequests.lookupAndIncrement, Table.get_modify_self,
            Option.map_eq_some_iff] at hget
          obtain ⟨info', hget', rfl⟩ := hget
          have hbefore := ih hr' hget'
          exact hbefore
        | pendingRemove q' =>
          obtain rfl : q' = q := by simpa [Op.pendingKey] using ho
          simp [proxy, exec, PendingRequests.remove] at hget
        | _ => cases ho
      · rw [recordOf_of_ne ho]
        have hget' : c'.shared.pendingRequests.get q = some info := by
          rw [← hget]
          exact (exec_pending_of_ne ho _ _).symm
        exact ih hr' hget'

/-- In a run that starts without pending requests, every entry was recorded. -/
theorem pending_origin (hp₀ : p₀.pendingRequests = Table.empty) {info : RequestInfo}
    (hr : Run proxy p₀ h c) (hget : c.shared.pendingRequests.get q = some info) :
    ∃ i, lastRecord q h = some (i, info.originAddr) := by
  rcases entry_origin ((List.nil_append h).symm ▸ hr) hget with hi | ⟨_, c₁, hr₁, hne⟩
  · exact hi
  · rw [run_nil_iff] at hr₁
    subst hr₁
    simp [hp₀] at hne

end Entries

/-! ### What one handler does to the table -/

/-- Operations that take up a sequence number on behalf of a handler. -/
def Op.opensPending : Op → Bool
  | .pendingInsert _ _ _ _ | .pendingLookupAndIncrement _ => true
  | _ => false

lemma conduct_opens_once {d : Datagram} (l : Acts) (o : Op) (hI : Conduct d l o)
    (ho : o.opensPending = true) : ∀ b ∈ l, ¬b.op.opensPending = true := by
  have hu : Unsent l := by
    obtain ⟨h, _, hI⟩ := hI
    cases o with
    | pendingInsert q a b f => exact hI.2.2.2.2.2
    | pendingLookupAndIncrement q => exact hI.2.2
    | _ => cases ho
  intro b hb hopen
  have hw := (hu b hb).1
  cases hop : b.op <;> simp_all [Op.opensPending, Op.writesPending]

/-- Every entry that was found has been sent to its origin. -/
def FoundSent (data : List UInt8) (l : Acts) : Prop :=
  ∀ q r, ⟨.pendingLookupAndIncrement q, some r⟩ ∈ l → ∃ ok, ⟨.sendTo data r.1, ok⟩ ∈ l

lemma FoundSent.snoc {data : List UInt8} {l : Acts} (hl : FoundSent data l) {o : Op}
    (ho : o.opensPending = false) (r : o.Res) : FoundSent data (l ++ [⟨o, r⟩]) := by
  intro q r' hm
  rw [List.mem_append, List.mem_singleton] at hm
  rcases hm with hm | hm
  · obtain ⟨ok, hok⟩ := hl q r' hm
    exact ⟨ok, List.mem_append_left _ hok⟩
  · have hop : o = .pendingLookupAndIncrement q := (congrArg Act.op hm).symm
    rw [hop] at ho
    cases ho

lemma response_sends {d : Datagram} {q : UInt32} (hd : d.Answers q) :
    Guarded (fun _ _ => True) (fun _ l => FoundSent d.data l) (handleMessage d) [] := by
  obtain ⟨h, hh, rfl, ht⟩ := hd
  rw [handleMessage_response hh ht]
  simp only [recordMessageReceived, handleResponse, recordResponseForwarded,
    recordResponseDropped, Prog.call_bind, Prog.act_bind, Prog.pure_eq, Prog.done_bind,
    guarded_act, true_and]
  intro _ _ r
  rcases r with _ | ⟨o, b, n, f⟩
  · simp [Prog.call, FoundSent]
  · simp only [guarded_act, true_and]
    intro ok
    apply guarded_of_only (P := fun o => o.opensPending = false) ?_ (FoundSent d.data)
    · simp [FoundSent]
    · exact fun l o hl ho => ⟨trivial, hl.snoc ho⟩
    · exact fun _ l hl => hl
    cases ok with
    | false => simp
    | true =>
      cases b with
      | false => simp [Op.opensPending]
      | true =>
        simp only [if_true, only_act]
        refine ⟨rfl, fun bs => ⟨rfl, fun _ => ?_⟩⟩
        split <;> simp [Op.opensPending]

section Tasks

variable {p₀ : Proxy} {h h₁ h₂ : History} {c : Config Op.Res Proxy Datagram} {i : ℕ} {d : Datagram}

lemma opens_once (hr : Run proxy p₀ h c) (hd : .recv i d ∈ h) {a b : Act Op.Res}
    (ha : a ∈ acts i h) (hb : b ∈ acts i h) (hoa : a.op.opensPending = true)
    (hob : b.op.opensPending = true) : a = b := by
  obtain ⟨p, _, hpath⟩ := hr.handler_path hd
  exact (handleMessage_conduct d).once (fun o => o.opensPending = true) hpath
    conduct_opens_once ha hb hoa hob

lemma sent_recorded {data : List UInt8} {dst : SocketAddr} {ok : Bool} {pre : Proxy} {q : UInt32}
    (hr : Run proxy p₀ (h₁ ++ .act i ⟨.sendTo data dst, ok⟩ pre :: h₂) c)
    (hd : .recv i d ∈ h₁ ++ .act i ⟨.sendTo data dst, ok⟩ pre :: h₂) (hask : d.Asks q) :
    ∃ b f, ⟨.pendingInsert q d.src b f, ()⟩ ∈ acts i h₁ := by
  obtain ⟨_, hh, hhd, _, _, hcase⟩ := conduct_of_recv hr hd
  obtain ⟨hh', hhd', rfl, hreq⟩ := hask
  rw [hhd, Option.some.injEq] at hhd'
  subst hhd'
  rcases hcase with ⟨_, hins, _⟩ | ⟨hresp, _⟩
  · exact ⟨_, _, hins⟩
  · rw [hreq] at hresp
    cases hresp

lemma not_dropped_of_found (hr : Run proxy p₀ h c) (hd : .recv i d ∈ h) {q : UInt32}
    {e : SocketAddr × Bool × ℕ × Bool}
    (hfound : ⟨.pendingLookupAndIncrement q, some e⟩ ∈ acts i h) :
    ⟨.fetchAdd .responsesDropped, ()⟩ ∉ acts i h := by
  intro hdrop
  obtain ⟨x, pre, y, rfl⟩ := exists_split_of_mem_acts hdrop
  obtain ⟨_, hh, _, _, hnone⟩ := conduct_of_recv hr hd
  have hnone' := List.mem_append_left (acts i (.act i ⟨.fetchAdd .responsesDropped, ()⟩ pre :: y)) hnone
  rw [← acts_append] at hnone'
  have heq := opens_once hr hd hfound hnone' rfl rfl
  simp only [Act.mk.injEq, Op.pendingLookupAndIncrement.injEq] at heq
  obtain ⟨rfl, heq⟩ := heq
  cases heq

lemma answers_of_lookup (hr : Run proxy p₀ h c) (hd : .recv i d ∈ h) {q : UInt32}
    {e : Option (SocketAddr × Bool × ℕ × Bool)}
    (hlook : ⟨.pendingLookupAndIncrement q, e⟩ ∈ acts i h) : d.Answers q := by
  obtain ⟨x, pre, y, rfl⟩ := exists_split_of_mem_acts hlook
  obtain ⟨_, hh, hhd, hq, hresp, _⟩ := conduct_of_recv hr hd
  exact ⟨hh, hhd, hq.symm, hresp⟩

/-- Whatever a response sends goes to the origin of the entry it found. -/
lemma response_target (hr : Run proxy p₀ h c) (hd : .recv i d ∈ h) {q : UInt32}
    (hans : d.Answers q) {data : List UInt8} {dst : SocketAddr} {ok : Bool}
    (hsent : ⟨.sendTo data dst, ok⟩ ∈ acts i h) :
    data = d.data ∧ ∃ r, ⟨.pendingLookupAndIncrement q, some r⟩ ∈ acts i h ∧ dst = r.1 := by
  obtain ⟨p, _, hpath⟩ := hr.handler_path hd
  obtain ⟨l₁, l₂, hl⟩ := List.append_of_mem hsent
  rw [hl] at hpath ⊢
  obtain ⟨hd', hhd', hdata, _, hcase⟩ := (handleMessage_conduct d).at_act hpath
  obtain ⟨hd'', hhd'', rfl, hresp⟩ := hans
  rw [hhd', Option.some.injEq] at hhd''
  subst hhd''
  rcases hcase with ⟨hreq, _⟩ | ⟨_, _, r, hr', hdst⟩
  · rw [hresp] at hreq
    cases hreq
  · exact ⟨hdata, r, by simpa using .inl hr', hdst⟩

end Tasks

end PfcpProxy
