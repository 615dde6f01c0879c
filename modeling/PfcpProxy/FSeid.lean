import PfcpProxy.RoutedRequests
import PfcpProxy.Sequential

/-!
# SEIDs allocated by the receiver

In the F-SEID exchange a session message carries the SEID its receiver has allocated, so
the establishment request carries SEID 0. The session table knows header SEIDs only: this
file says, for every interleaving, when a later message of such a session still reaches the
other end.
-/

namespace PfcpProxy

open AtomicTasks

/-- A session as its ends know it, with the SEIDs of its CP F-SEID and its UP F-SEID. -/
structure FSession where
  smf : SocketAddr
  upf : SocketAddr
  cpSeid : UInt64
  upSeid : UInt64
  deriving DecidableEq

/-- A modification or deletion request for the session. -/
def FSession.Requests (S : FSession) (d : Datagram) : Prop :=
  d.src = S.smf ∧ ∃ t q, d.header = some ⟨t, some S.upSeid, q⟩ ∧
    (t = .sessionModificationRequest ∨ t = .sessionDeletionRequest)

/-- A report for the session. -/
def FSession.Reports (S : FSession) (d : Datagram) : Prop :=
  d.src = S.upf ∧ ∃ q, d.header = some ⟨.sessionReportRequest, some S.cpSeid, q⟩

/-- A message that is no modification, deletion or report; if it asks for a session, its
receiver has no SEID for it yet. -/
def Datagram.Sessionless (d : Datagram) : Prop :=
  ∀ h, d.header = some h → h.msgType ≠ .sessionModificationRequest ∧
    h.msgType ≠ .sessionDeletionRequest ∧ h.msgType ≠ .sessionReportRequest ∧
    (h.msgType = .sessionEstablishmentRequest → h.seid = some 0)

def Datagram.isDeletion (d : Datagram) : Bool :=
  d.header.any (fun h => h.msgType = .sessionDeletionRequest)

/-- Task `i` has forwarded an establishment request to the UPF of the session, and task `k`
its acceptance to the SMF. -/
def Accepted (h : History) (i k : ℕ) (S : FSession) : Prop :=
  ∃ d r q, .recv i d ∈ h ∧ d.src = S.smf ∧
    d.header = some ⟨.sessionEstablishmentRequest, some 0, q⟩ ∧
    ⟨.sendTo d.data S.upf, true⟩ ∈ acts i h ∧
    .recv k r ∈ h ∧ r.src = S.upf ∧
    r.header = some ⟨.sessionEstablishmentResponse, some S.cpSeid, q⟩ ∧
    ⟨.sendTo r.data S.smf, true⟩ ∈ acts k h

/-- Neither end uses the SEID it allocates for the session in another live one. -/
def FSession.Fresh (S : FSession) (live : List FSession) : Prop :=
  ∀ S' ∈ live, (S'.smf = S.smf → S'.cpSeid ≠ S.cpSeid) ∧ (S'.upf = S.upf → S'.upSeid ≠ S.upSeid)

/-- `Exchange p₀ h c live later`: in the run `h` the ends of all sessions follow the F-SEID
exchange. `live` are the sessions that were accepted and not deleted; `later` are the tasks of
modifications, deletions and reports, each with its session. -/
inductive Exchange (p₀ : Proxy) : History → Config Op.Res Proxy Datagram → List FSession →
    List (ℕ × FSession) → Prop
  | start : Exchange p₀ [] ⟨p₀, []⟩ [] []
  | step {h : History} {c c' : Config Op.Res Proxy Datagram} {e : Event Op.Res Proxy Datagram Env}
      {live : List FSession} {later : List (ℕ × FSession)} (hx : Exchange p₀ h c live later)
      (hs : Step proxy c e c') (he : ∀ i d, e = .recv i d → d.Sessionless) :
    Exchange p₀ (h ++ [e]) c' live later
  | accept {h : History} {c : Config Op.Res Proxy Datagram} {live : List FSession}
      {later : List (ℕ × FSession)} {i k : ℕ} {S : FSession} (hx : Exchange p₀ h c live later)
      (ha : Accepted h i k S) (hf : S.Fresh live) :
    Exchange p₀ h c (S :: live) later
  | message {h : History} {c : Config Op.Res Proxy Datagram} {live : List FSession}
      {later : List (ℕ × FSession)} {S : FSession} {d : Datagram}
      (hx : Exchange p₀ h c live later) (hS : S ∈ live) (hd : S.Requests d ∨ S.Reports d) :
    Exchange p₀ (h ++ [.recv c.tasks.length d]) ⟨c.shared, c.tasks ++ [⟨d, handleMessage d⟩]⟩
      (if d.isDeletion then live.erase S else live) ((c.tasks.length, S) :: later)

section Exchange

variable {p₀ : Proxy} {h : History} {c : Config Op.Res Proxy Datagram} {live : List FSession}
  {later : List (ℕ × FSession)}

lemma Exchange.run (hx : Exchange p₀ h c live later) : Run proxy p₀ h c := by
  induction hx with
  | start => exact .nil
  | step _ hs _ ih => exact ih.snoc hs
  | accept _ _ _ ih => exact ih
  | @message h c live later S d _ _ _ ih => exact ih.snoc (.recv c d)

lemma Exchange.establishment_seid (hx : Exchange p₀ h c live later) {i : ℕ} {d : Datagram}
    {hd : Header} (hi : .recv i d ∈ h) (hhd : d.header = some hd)
    (ht : hd.msgType = .sessionEstablishmentRequest) : hd.seid = some 0 := by
  induction hx with
  | start => simp at hi
  | step _ _ he ih =>
    rw [List.mem_append, List.mem_singleton] at hi
    rcases hi with hi | rfl
    · exact ih hi
    · exact (he i d rfl hd hhd).2.2.2 ht
  | accept _ _ _ ih => exact ih hi
  | message _ _ hmsg ih =>
    rw [List.mem_append, List.mem_singleton, Event.recv.injEq] at hi
    rcases hi with hi | ⟨_, rfl⟩
    · exact ih hi
    · rcases hmsg with ⟨_, t, q, hhd', ht'⟩ | ⟨_, q, hhd'⟩
      · rw [hhd, Option.some.injEq] at hhd'
        subst hhd'
        rcases ht' with rfl | rfl <;> cases ht
      · rw [hhd, Option.some.injEq] at hhd'
        subst hhd'
        cases ht

lemma Exchange.later_recv (hx : Exchange p₀ h c live later) {j : ℕ} {S : FSession}
    (hS : (j, S) ∈ later) : ∃ d, .recv j d ∈ h ∧ (S.Requests d ∨ S.Reports d) := by
  induction hx with
  | start => simp at hS
  | step _ _ _ ih =>
    obtain ⟨d, hd, hcase⟩ := ih hS
    exact ⟨d, by simp [hd], hcase⟩
  | accept _ _ _ ih => exact ih hS
  | @message h c live later S' d _ _ hmsg ih =>
    rw [List.mem_cons, Prod.mk.injEq] at hS
    rcases hS with ⟨rfl, rfl⟩ | hS
    · exact ⟨d, by simp, hmsg⟩
    · obtain ⟨d', hd', hcase⟩ := ih hS
      exact ⟨d', by simp [hd'], hcase⟩

/-- Acts, environment steps and messages without a session go on with the exchange. -/
lemma Exchange.replay {x : History × Config Op.Res Proxy Datagram}
    (hx : Exchange p₀ x.1 x.2 live later) (ys : List (Choice Datagram Env Bool))
    (hys : ∀ d, .recv d ∈ ys → d.Sessionless) :
    Exchange p₀ (replay proxy ys x).1 (replay proxy ys x).2 live later := by
  induction ys generalizing x with
  | nil => exact hx
  | cons y ys ih =>
    have hys' : ∀ d, .recv d ∈ ys → d.Sessionless := fun d hd => hys d (List.mem_cons_of_mem _ hd)
    simp only [AtomicTasks.replay]
    split
    · rename_i e c' hn
      refine ih (.step hx (next_step hn) ?_) hys'
      rintro i d rfl
      cases y with
      | recv d' =>
        cases hn
        exact hys _ (List.mem_cons_self ..)
      | step j w =>
        simp only [next] at hn
        split at hn <;> cases hn
      | env e => cases hn
    · exact ih hx hys'

end Exchange

/-- In the exchange a session is asked for under SEID 0, or by a request of the last arm. -/
lemma Exchange.balanced {p₀ : Proxy} {h₁ h₂ : History} {c : Config Op.Res Proxy Datagram}
    {live : List FSession} {later : List (ℕ × FSession)} (hx : Exchange p₀ (h₁ ++ h₂) c live later)
    {s : UInt64} {u a : SocketAddr} (hl : LastBalanced h₁ s u a) :
    s = 0 ∨ ∃ i d hd, .recv i d ∈ h₁ ∧ d.header = some hd ∧ isDefaultRequest hd.msgType = true ∧
      hd.seid = some s := by
  obtain ⟨x, e, y, rfl, ⟨i, d, ⟨_, _, _, hi, _⟩, ⟨hd, hhd, hs, hest | ⟨hdef, _⟩⟩, _⟩, _⟩ := hl
  · have hmem : .recv i d ∈ x ++ e :: y ++ h₂ := by simp [hi]
    have hzero := hx.establishment_seid hmem hhd hest
    rw [hs, Option.some.injEq] at hzero
    exact .inl hzero
  · exact .inr ⟨i, d, hd, by simp [hi], hhd, hdef, hs⟩

/-! ### Where a message of a session goes -/

lemma follows_forward {d : Datagram} {s : UInt64} {q : UInt32} {u : SocketAddr} {l : Acts}
    (hl : ⟨.sessionLookup s, some u⟩ ∈ l) :
    Guarded
      (fun l o' => (∀ data dst, o' = .sendTo data dst →
          data = d.data ∧ ∃ r, ⟨.sessionLookup s, r⟩ ∈ l ∧ id r = some dst) ∧
        (o' = .sessionLookup s → ∀ b ∈ l, ¬b.op = .sessionLookup s))
      (fun _ l => ∃ r, ⟨.sessionLookup s, r⟩ ∈ l ∧
        ∀ v, id r = some v → ∃ ok, ⟨.sendTo d.data v, ok⟩ ∈ l)
      (forwardRequest d.data d.src q (.single u)) l := by
  simp only [forwardRequest, recordMessageSent, Prog.call_bind, guarded_act]
  refine ⟨by simp, fun _ => ⟨⟨?_, by simp⟩, fun ok => ?_⟩⟩
  · rintro data dst ⟨rfl, rfl⟩
    exact ⟨rfl, some u, by simp [hl], rfl⟩
  · cases ok with
    | true =>
      refine ⟨by simp, fun _ => ⟨by simp, fun _ => ⟨some u, by simp [hl], ?_⟩⟩⟩
      rintro v ⟨⟩
      simp
    | false =>
      refine ⟨by simp, fun _ => ⟨some u, by simp [hl], ?_⟩⟩
      rintro v ⟨⟩
      simp

lemma follows_request {d : Datagram} {t : MsgType} {s : UInt64} {q : UInt32}
    (hd : d.header = some ⟨t, some s, q⟩)
    (ht : t = .sessionModificationRequest ∨ t = .sessionDeletionRequest) :
    Follows d (.sessionLookup s) id := by
  have hroute : routeMessage t (some s) d.src = routeAffinity t (some s) := by
    rcases ht with rfl | rfl <;> rfl
  have hsmf : isSmfRequest t = true := by rcases ht with rfl | rfl <;> rfl
  rw [Follows, handleMessage_smf hd hsmf, hroute]
  simp only [recordMessageReceived, routeAffinity, Prog.call_bind, Prog.act_bind, guarded_act]
  refine ⟨by simp, fun _ => ⟨by simp, fun _ => ⟨by simp, fun r => ?_⟩⟩⟩
  cases r with
  | none => exact ⟨none, by simp, by simp⟩
  | some u =>
    simp only [recordRoutingDecision, recordSessionDeleted, Bool.false_eq_true, if_false, if_true,
      Prog.call_bind, Prog.act_bind, guarded_act]
    refine ⟨by simp, fun _ => ?_⟩
    by_cases hdel : t = .sessionDeletionRequest
    · simp only [hdel, if_true, Prog.act_bind, Prog.pure_eq, Prog.done_bind, guarded_act]
      exact ⟨by simp, fun _ => ⟨by simp, fun _ => follows_forward (by simp)⟩⟩
    · simp only [hdel, if_false, Prog.pure_eq, Prog.done_bind]
      exact follows_forward (by simp)

/-- Where the handler has returned, it has sent the datagram to the target alone. -/
lemma Follows.sendsTo_iff {p₀ : Proxy} {h : History} {c : Config Op.Res Proxy Datagram} {j : ℕ}
    {d : Datagram} {o : Op} {target : o.Res → Option SocketAddr} (hf : Follows d o target)
    (hr : Run proxy p₀ h c) (hd : .recv j d ∈ h) (hdone : Finished c j) (v : SocketAddr) :
    SendsTo d.data v (acts j h) ↔
      ∃ h₁ r pre h₂, h = h₁ ++ .act j ⟨o, r⟩ pre :: h₂ ∧ target r = some v := by
  have hpath := hdone.path hr hd
  constructor
  · rintro ⟨⟨ok, hsent⟩, _⟩
    obtain ⟨_, r, hlook, htarget⟩ := hf.sent hpath hsent
    obtain ⟨h₁, pre, h₂, hsplit⟩ := exists_split_of_mem_acts hlook
    exact ⟨h₁, r, pre, h₂, hsplit, htarget⟩
  · rintro ⟨h₁, r, pre, h₂, rfl, htarget⟩
    have hlook : ⟨o, r⟩ ∈ acts j (h₁ ++ .act j ⟨o, r⟩ pre :: h₂) := by simp
    constructor
    · obtain ⟨r', hlook', hsent⟩ := hf.path hpath
      obtain rfl := hf.answer_eq hpath hlook' hlook
      exact hsent v htarget
    · intro data dst ok hsent
      obtain ⟨hdata, r', hlook', htarget'⟩ := hf.sent hpath hsent
      obtain rfl := hf.answer_eq hpath hlook' hlook
      rw [htarget, Option.some.injEq] at htarget'
      exact ⟨hdata, htarget'.symm⟩

/-! ### When a message of a session arrives -/

/-- In the history `h`, task `j` performs `o` after `h₁`. -/
def PerformedAfter (h : History) (j : ℕ) (o : Op) (h₁ : History) : Prop :=
  ∃ r pre h₂, h = h₁ ++ .act j ⟨o, r⟩ pre :: h₂

section Lookups

variable {p₀ : Proxy} {h₁ h₂ : History} {c : Config Op.Res Proxy Datagram} {j : ℕ} {s : UInt64}
  {pre : Proxy}

lemma sessionLookup_res (hp₀ : p₀.sessionTable = Table.empty) {r : Option SocketAddr}
    (hr : Run proxy p₀ (h₁ ++ .act j ⟨.sessionLookup s, r⟩ pre :: h₂) c) :
    r = (lastWritten s h₁).map Prod.fst := by
  obtain ⟨c₁, w, hr₁, rfl, hres⟩ := act_exec hr
  rw [← lookupFull_eq_lastWritten hp₀ hr₁, ← SessionTable.lookup_eq]
  exact hres

lemma sessionLookupFull_res (hp₀ : p₀.sessionTable = Table.empty)
    {r : Option (SocketAddr × SocketAddr)}
    (hr : Run proxy p₀ (h₁ ++ .act j ⟨.sessionLookupFull s, r⟩ pre :: h₂) c) :
    r = lastWritten s h₁ := by
  obtain ⟨c₁, w, hr₁, rfl, hres⟩ := act_exec hr
  rw [← lookupFull_eq_lastWritten hp₀ hr₁]
  exact hres

end Lookups

/-- In the F-SEID exchange a modification or deletion is forwarded to the UPF of its session,
and a report to the SMF, if and only if, when its SEID is looked up, the last request under this
SEID to ask for an UPF was balanced to that UPF (for a report: and came from that SMF), and no
deletion under it was routed since. Establishments ask under SEID 0 only. -/
theorem fseid_affinity_iff {backends : List SocketAddr} {strategy : LoadBalancingStrategy}
    {h : History} {c : Config Op.Res Proxy Datagram} {live : List FSession}
    {later : List (ℕ × FSession)} {j : ℕ} {S : FSession}
    (hx : Exchange (Proxy.new backends strategy) h c live later) (hS : (j, S) ∈ later)
    (hdone : Finished c j) :
    (∃ d, .recv j d ∈ h ∧
      (S.Requests d ∧ (SendsTo d.data S.upf (acts j h) ↔
          ∃ h₁ a, PerformedAfter h j (.sessionLookup S.upSeid) h₁ ∧
            LastBalanced h₁ S.upSeid S.upf a) ∨
        S.Reports d ∧ (SendsTo d.data S.smf (acts j h) ↔
          ∃ h₁, PerformedAfter h j (.sessionLookupFull S.cpSeid) h₁ ∧
            LastBalanced h₁ S.cpSeid S.upf S.smf))) ∧
    (∀ h₁ h₂ s u a, h = h₁ ++ h₂ → LastBalanced h₁ s u a →
      s = 0 ∨ ∃ i d hd, .recv i d ∈ h₁ ∧ d.header = some hd ∧
        isDefaultRequest hd.msgType = true ∧ hd.seid = some s) := by
  have hr := hx.run
  constructor
  · obtain ⟨d, hd, hreq | hrep⟩ := hx.later_recv hS
    · refine ⟨d, hd, .inl ⟨hreq, ?_⟩⟩
      obtain ⟨_, t, q, hhd, ht⟩ := hreq
      rw [(follows_request hhd ht).sendsTo_iff hr hd hdone]
      constructor
      · rintro ⟨h₁, r, pre, h₂, rfl, hfound⟩
        obtain ⟨c₁, hr₁⟩ := hr.of_append
        rw [sessionLookup_res rfl hr] at hfound
        obtain ⟨⟨u, a⟩, hlast, rfl⟩ := Option.map_eq_some_iff.mp hfound
        exact ⟨h₁, a, ⟨r, pre, h₂, rfl⟩, (lastWritten_iff hr₁).mp hlast⟩
      · rintro ⟨h₁, a, ⟨r, pre, h₂, rfl⟩, hlast⟩
        obtain ⟨c₁, hr₁⟩ := hr.of_append
        refine ⟨h₁, r, pre, h₂, rfl, ?_⟩
        rw [sessionLookup_res rfl hr, (lastWritten_iff hr₁).mpr hlast]
        rfl
    · refine ⟨d, hd, .inr ⟨hrep, ?_⟩⟩
      obtain ⟨hsrc, q, hhd⟩ := hrep
      rw [(follows_report hhd).sendsTo_iff hr hd hdone]
      constructor
      · rintro ⟨h₁, r, pre, h₂, rfl, hfound⟩
        obtain ⟨c₁, hr₁⟩ := hr.of_append
        rw [sessionLookupFull_res rfl hr] at hfound
        obtain ⟨⟨u, a⟩, hlast, htarget⟩ := Option.bind_eq_some_iff.mp hfound
        simp only [Option.ite_none_right_eq_some, Option.some.injEq] at htarget
        obtain ⟨rfl, rfl⟩ := htarget
        refine ⟨h₁, ⟨r, pre, h₂, rfl⟩, ?_⟩
        rw [← hsrc, ← lastWritten_iff hr₁, hlast]
      · rintro ⟨h₁, ⟨r, pre, h₂, rfl⟩, hlast⟩
        obtain ⟨c₁, hr₁⟩ := hr.of_append
        refine ⟨h₁, r, pre, h₂, rfl, ?_⟩
        rw [sessionLookupFull_res rfl hr, (lastWritten_iff hr₁).mpr hlast]
        simp [hsrc]
  · rintro h₁ h₂ s u a rfl hlast
    exact hx.balanced hlast

/-! ### One session, with SEIDs of either kind -/

/-- One SMF asks for a session with CP SEID 7, and the first UPF accepts. -/
def askedAndAccepted : History × Config Op.Res Proxy Datagram :=
  played [upfX, upfY] .roundRobin (oneByOne 0
    [message .sessionEstablishmentRequest (some 0) 1 smfA,
      message .sessionEstablishmentResponse (some 7) 1 upfX])

/-- Then it modifies the session, for which the UPF has allocated `s`. -/
def thenModified (s : UInt64) : History × Config Op.Res Proxy Datagram :=
  replay proxy (.recv (message .sessionModificationRequest (some s) 2 smfA) ::
    List.replicate 16 (.step 2 true)) askedAndAccepted

lemma thenModified_exchange (s : UInt64) :
    Exchange (Proxy.new [upfX, upfY] .roundRobin) (thenModified s).1 (thenModified s).2
      [⟨smfA, upfX, 7, s⟩] [(2, ⟨smfA, upfX, 7, s⟩)] := by
  have hasked : Exchange (Proxy.new [upfX, upfY] .roundRobin) askedAndAccepted.1 askedAndAccepted.2
      [] [] := by
    apply Exchange.start.replay
    intro d hd
    simp only [oneByOne, List.cons_append, List.append_nil, List.mem_cons, List.mem_append,
      List.mem_replicate, Choice.recv.injEq, reduceCtorEq, and_false, or_false, false_or] at hd
    rcases hd with rfl | rfl <;> rintro _ ⟨⟩ <;> simp
  have haccepted : Accepted askedAndAccepted.1 0 1 ⟨smfA, upfX, 7, s⟩ := by
    let d := message .sessionEstablishmentRequest (some 0) 1 smfA
    let r := message .sessionEstablishmentResponse (some 7) 1 upfX
    have hd : (0, d) ∈ receptions askedAndAccepted.1 := by decide +kernel
    have hsent : ⟨.sendTo [0x21] upfX, true⟩ ∈ acts 0 askedAndAccepted.1 := by decide +kernel
    have hresp : (1, r) ∈ receptions askedAndAccepted.1 := by decide +kernel
    have hback : ⟨.sendTo [0x21] smfA, true⟩ ∈ acts 1 askedAndAccepted.1 := by decide +kernel
    exact ⟨d, r, 1, mem_receptions_iff.mp hd, rfl, rfl, hsent, mem_receptions_iff.mp hresp, rfl, rfl,
      hback⟩
  have hlength : askedAndAccepted.2.tasks.length = 2 := by decide +kernel
  have hmodified := (hasked.accept haccepted (by simp [FSession.Fresh])).message
    (d := message .sessionModificationRequest (some s) 2 smfA) (List.mem_cons_self ..)
    (.inl ⟨rfl, _, _, rfl, .inl rfl⟩)
  rw [thenModified, replay]
  simp only [next, hlength] at hmodified ⊢
  exact hmodified.replay (List.replicate 16 (.step 2 true)) (by simp)

/-- A session for which the UPF has allocated SEID 0 is modified there. -/
theorem fseid_affinity_zero : SendsTo [0x21] upfX (acts 2 (thenModified 0).1) := by
  have hdone : Finished (thenModified 0).2 2 := ⟨_, rfl⟩
  have hrecv : receptions (thenModified 0).1 =
      [(0, message .sessionEstablishmentRequest (some 0) 1 smfA),
        (1, message .sessionEstablishmentResponse (some 7) 1 upfX),
        (2, message .sessionModificationRequest (some 0) 2 smfA)] := rfl
  have hat : actAt (thenModified 0).1 23 = some (2, ⟨.sessionLookup 0, some upfX⟩) := by
    decide +kernel
  have hwritten : lastWritten 0 ((thenModified 0).1.take 23) = some (upfX, smfA) := by
    decide +kernel
  obtain ⟨pre, hsplit⟩ := split_at hat
  have hr : Run proxy (Proxy.new [upfX, upfY] .roundRobin) ((thenModified 0).1.take 23 ++ _) _ :=
    hsplit ▸ (thenModified_exchange 0).run
  obtain ⟨c₁, hr₁⟩ := hr.of_append
  have hlast := (lastWritten_iff hr₁).mp hwritten
  obtain ⟨⟨d, hd, hcase⟩, _⟩ := fseid_affinity_iff (thenModified_exchange 0)
    (List.mem_singleton_self _) hdone
  obtain rfl : d = message .sessionModificationRequest (some 0) 2 smfA := by
    simpa [← mem_receptions_iff, hrecv] using hd
  rcases hcase with ⟨_, hiff⟩ | ⟨⟨hsrc, _⟩, _⟩
  · exact hiff.mpr ⟨_, smfA, ⟨_, pre, _, hsplit⟩, hlast⟩
  · cases hsrc

/-- A session for which the UPF has allocated SEID 9 is not modified anywhere. -/
theorem fseid_affinity_fails :
    Exchange (Proxy.new [upfX, upfY] .roundRobin) (thenModified 9).1 (thenModified 9).2
      [⟨smfA, upfX, 7, 9⟩] [(2, ⟨smfA, upfX, 7, 9⟩)] ∧
    Finished (thenModified 9).2 2 ∧
    ¬SendsTo [0x21] upfX (acts 2 (thenModified 9).1) := by
  refine ⟨thenModified_exchange 9, ⟨_, rfl⟩, ?_⟩
  rintro ⟨⟨ok, hsent⟩, _⟩
  revert hsent
  cases ok <;> decide +kernel

end PfcpProxy
