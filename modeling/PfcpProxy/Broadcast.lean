import PfcpProxy.Pending
import PfcpProxy.Sequential

/-!
# Completion of broadcasts

The pending entry of a broadcast request is removed by the response whose number reaches
the size of the pool. This file compares that with the backends the request was sent to,
for any later responses, pool commands and other traffic.
-/

namespace PfcpProxy

open AtomicTasks

instance (d : Datagram) (q : UInt32) : Decidable (d.Answers q) :=
  decidable_of_iff
    (d.header.any (fun h => h.sequence = q ∧ isRequest h.msgType = false) = true) (by
      simp [Datagram.Answers, Option.any_eq_true_iff_get, Option.eq_some_iff_get_eq])

/-- What happens next: a message is handled, with `ω` deciding its sends, or the environment
moves. -/
inductive Happening
  | message (d : Datagram) (ω : ℕ → Bool)
  | env (e : Env)

def Happening.apply (p : Proxy) : Happening → Proxy
  | .message d ω => (handled ω d p).state
  | .env e => envStep e p

/-- The state after some happenings. -/
def after (p : Proxy) (hs : List Happening) : Proxy := hs.foldl Happening.apply p

@[simp] lemma after_nil (p : Proxy) : after p [] = p := rfl

@[simp] lemma after_snoc (p : Proxy) (hs : List Happening) (e : Happening) :
    after p (hs ++ [e]) = e.apply (after p hs) := by
  simp [after]

/-- The sequence number is not used by a new request, and its entry does not go stale. -/
def Happening.Spares (q : UInt32) : Happening → Prop
  | .message d _ => ¬d.Asks q
  | .env e => e ≠ .cleanupStale

def Happening.responder (q : UInt32) : Happening → Option SocketAddr
  | .message d _ => if d.Answers q then some d.src else none
  | .env _ => none

/-- Who has answered, once for each response. -/
def responders (q : UInt32) (hs : List Happening) : List SocketAddr :=
  hs.filterMap (Happening.responder q)

/-- Not everybody in `A` has answered. -/
def Awaited (q : UInt32) (A : Set SocketAddr) (hs : List Happening) : Prop :=
  ∃ u ∈ A, u ∉ responders q hs

/-- The backends a request is successfully sent to. -/
def reached (ω : ℕ → Bool) (d : Datagram) (p : Proxy) : Set SocketAddr :=
  {u | ⟨.sendTo d.data u, true⟩ ∈ (handled ω d p).acts}

/-- The send of a response that is handled alone succeeds; it is the fourth operation of its
handler. -/
def forwardSucceeds (ω : ℕ → Bool) : Bool := ω 3

/-- The pending entry of a broadcast of `origin` follows the backends in `A` through `hs`: it
is there as long as one of them has not answered and no longer, and the first response of
each is forwarded to the origin. -/
structure Tracks (p : Proxy) (q : UInt32) (origin : SocketAddr) (A : Set SocketAddr)
    (hs : List Happening) : Prop where
  entry : ∀ pre post, hs = pre ++ post →
    ((after p pre).pendingRequests.get q ≠ none ↔ Awaited q A pre)
  forwarded : ∀ pre d ω post, hs = pre ++ .message d ω :: post → d.Answers q → d.src ∈ A →
    d.src ∉ responders q pre → SendsTo d.data origin (handled ω d (after p pre)).acts

/-- As long as somebody in `A` is awaited, a response that is forwarded brings the number of
responses up to the size of the pool if and only if it is the last one awaited, and that one
is forwarded. -/
def CountsMatch (p : Proxy) (q : UInt32) (A : Set SocketAddr) (hs : List Happening) : Prop :=
  ∀ pre d ω post, hs = pre ++ .message d ω :: post → d.Answers q → Awaited q A pre →
    ((forwardSucceeds ω = true ∧
        (after p pre).upfPool.backends.length ≤ (responders q pre).length + 1) ↔
      ¬Awaited q A (pre ++ [.message d ω]))

/-! ### One happening -/

variable (p : Proxy) (ω : ℕ → Bool) {d : Datagram} {q : UInt32}

lemma handled_get_of_spared (hask : ¬d.Asks q) (hans : ¬d.Answers q) :
    (handled ω d p).state.pendingRequests.get q = p.pendingRequests.get q := by
  have hkeys : ∀ a ∈ (handled ω d p).acts, a.op.pendingKey ≠ some q := by
    intro a ha hkey
    obtain ⟨l₁, l₂, hl⟩ := List.append_of_mem ha
    have hpath := run_path exec (handleMessage d) ω p
    rw [hl] at hpath
    obtain ⟨h, hh, hI⟩ := (handleMessage_conduct d).at_act hpath
    have hq : h.sequence = q := by
      cases hop : a.op with
      | pendingInsert q' o b f =>
        rw [hop] at hI hkey
        exact hI.1.symm.trans (by simpa [Op.pendingKey] using hkey)
      | pendingLookupAndIncrement q' =>
        rw [hop] at hI hkey
        exact hI.1.symm.trans (by simpa [Op.pendingKey] using hkey)
      | pendingRemove q' =>
        rw [hop] at hI hkey
        exact hI.1.symm.trans (by simpa [Op.pendingKey] using hkey)
      | _ =>
        rw [hop] at hkey
        cases hkey
    cases hreq : isRequest h.msgType with
    | true => exact hask ⟨h, hh, hq, hreq⟩
    | false => exact hans ⟨h, hh, hq, hreq⟩
  refine run_of_acts exec (P := fun o => o.pendingKey ≠ some q)
    (fun p' => p'.pendingRequests.get q = p.pendingRequests.get q) ?_ ω p hkeys rfl
  intro o w p' ho hp'
  rw [exec_pending_of_ne ho, hp']

lemma handled_response_none (hans : d.Answers q) (hget : p.pendingRequests.get q = none) :
    (handled ω d p).state.pendingRequests.get q = none := by
  obtain ⟨h, hd, rfl, ht⟩ := hans
  rw [handled, handleMessage_response hd ht, run_bind, run_recordMessageReceived]
  simp [handleResponse, recordResponseDropped, run_act, exec, PendingRequests.lookupAndIncrement,
    hget]

/-- A response to a broadcast is forwarded to the origin, and counted; if it could be
forwarded and the count has reached the size of the pool, the entry is removed. -/
lemma handled_response_broadcast (hans : d.Answers q) {info : RequestInfo}
    (hget : p.pendingRequests.get q = some info) (hb : info.isBroadcast = true) :
    (handled ω d p).state.pendingRequests.get q =
      (if forwardSucceeds ω = true ∧ p.upfPool.backends.length ≤ info.responsesReceived + 1
        then none else some { info with responsesReceived := info.responsesReceived + 1 }) ∧
    SendsTo d.data info.originAddr (handled ω d p).acts := by
  obtain ⟨h, hd, rfl, ht⟩ := hans
  rw [handled, handleMessage_response hd ht, run_bind, run_recordMessageReceived]
  simp only [handleResponse, Prog.call_bind, run_act, exec, PendingRequests.lookupAndIncrement,
    received_pendingRequests, hget, Option.map_some, hb]
  have hω : ω (1 + 2) = forwardSucceeds ω := rfl
  simp only [List.length_cons, List.length_nil, Nat.zero_add, Nat.reduceAdd, hω]
  cases hfwd : forwardSucceeds ω with
  | false => simp [SendsTo, hget, hb]
  | true =>
    by_cases hfull : p.upfPool.backends.length ≤ info.responsesReceived + 1
    · simp [SendsTo, recordResponseForwarded, run_act, exec, hfull, PendingRequests.remove]
    · simp [SendsTo, recordResponseForwarded, run_act, exec, hfull, hget, hb]

/-- The send loop leaves the pending requests alone, and counts at least one send if there was
a successful one. -/
lemma run_broadcastLoop (data : List UInt8) (bs : List SocketAddr) (n : ℕ) :
    (run exec (broadcastLoop data bs n) ω p).state.pendingRequests = p.pendingRequests ∧
    n ≤ (run exec (broadcastLoop data bs n) ω p).value ∧
    ((∃ u, ⟨.sendTo data u, true⟩ ∈ (run exec (broadcastLoop data bs n) ω p).acts) →
      n < (run exec (broadcastLoop data bs n) ω p).value) := by
  induction bs generalizing ω p n with
  | nil => simp [broadcastLoop]
  | cons b bs ih =>
    simp only [broadcastLoop, recordMessageSent, Prog.call_bind, run_act, exec]
    cases hω : ω 0 with
    | true =>
      simp only [if_true, Prog.act_bind, Prog.call_bind, run_act, exec]
      obtain ⟨hpend, hle, _⟩ := ih { p with stats := (p.stats.fetchAdd .totalMessagesSent).countUpfMessage b }
        (fun n => ω (n + 1 + 1 + 1)) (n + 1)
      exact ⟨hpend, Nat.le_of_succ_le hle, fun _ => hle⟩
    | false =>
      simp only [Bool.false_eq_true, if_false]
      obtain ⟨hpend, hle, hlt⟩ := ih p (fun n => ω (n + 1)) n
      refine ⟨hpend, hle, ?_⟩
      rintro ⟨u, hsent⟩
      exact hlt ⟨u, by simpa using hsent⟩

/-- Once something was sent, the pending entry is not rolled back. -/
lemma run_forwardRequest_broadcast (data : List UInt8) (src : SocketAddr) (q : UInt32)
    (bs : List SocketAddr) (hsent : ∃ u, ⟨.sendTo data u, true⟩ ∈
      (run exec (forwardRequest data src q (.broadcast bs)) ω p).acts) :
    (run exec (forwardRequest data src q (.broadcast bs)) ω p).state.pendingRequests =
      p.pendingRequests.insert p.now q src true false := by
  obtain ⟨u, hu⟩ := hsent
  simp only [forwardRequest, Prog.call_bind, run_act, exec] at hu ⊢
  rw [run_bind] at hu ⊢
  obtain ⟨hpend, _, hlt⟩ := run_broadcastLoop
    { p with pendingRequests := p.pendingRequests.insert p.now q src true false }
    (fun n => ω (n + 1)) data bs 0
  revert hu hpend hlt
  generalize run exec (broadcastLoop data bs 0) _ _ = x
  intro hu hpend hlt
  have hloop : ⟨.sendTo data u, true⟩ ∈ x.acts := by
    by_cases hx : x.value = 0
    · simpa [hx] using hu
    · simpa [hx] using hu
  rw [if_neg (Nat.pos_iff_ne_zero.mp (hlt ⟨u, hloop⟩))]
  exact hpend

/-- A broadcast request that reaches somebody leaves a pending entry without responses. -/
lemma handled_broadcast {h : Header} (hd : d.header = some h)
    (hb : isBroadcastRequest h.msgType = true)
    (hsent : ∃ u, ⟨.sendTo d.data u, true⟩ ∈ (handled ω d p).acts) :
    (handled ω d p).state.pendingRequests.get h.sequence =
      some ⟨d.src, p.now, true, 0, false⟩ := by
  obtain ⟨x, k, hx, hunsent, hstate, hacts⟩ :=
    handled_smf p ω hd ((isSmfRequest_iff h.msgType).mpr (.inl hb))
  have hdec : routeDecision p h.msgType h.seid = .broadcast (p.upfPool.backends.map (·.addr)) := by
    simp [routeDecision, hb]
  obtain ⟨u, hu⟩ := hsent
  rw [hacts, hdec] at hu
  simp only [List.mem_append, List.mem_cons, List.not_mem_nil, Act.mk.injEq, reduceCtorEq,
    false_and, or_self, false_or] at hu
  rcases hu with hu | hu
  · exact absurd (hunsent _ hu).2 (by simp [Op.isSend])
  · rw [hstate, hdec, run_forwardRequest_broadcast _ _ _ _ _ _ ⟨u, hu⟩]
    simp [PendingRequests.insert, hx.now]

/-! ### Runs of happenings -/

section Happenings

variable {p} {origin : SocketAddr} {A : Set SocketAddr} {hs : List Happening}

lemma responders_snoc (q : UInt32) (hs : List Happening) (e : Happening) :
    responders q (hs ++ [e]) = responders q hs ++ (e.responder q).toList := by
  cases hresp : e.responder q <;> simp [responders, hresp]

lemma apply_get_of_silent {e : Happening} (he : e.Spares q) (hresp : e.responder q = none) :
    (e.apply p).pendingRequests.get q = p.pendingRequests.get q := by
  cases e with
  | message d ω =>
    have hans : ¬d.Answers q := by
      intro hans
      simp [Happening.responder, hans] at hresp
    exact handled_get_of_spared p ω he hans
  | env e =>
    cases e with
    | cleanupStale => exact absurd rfl he
    | _ => rfl

lemma responder_eq_some {e : Happening} {u : SocketAddr} (hresp : e.responder q = some u) :
    ∃ d ω, e = .message d ω ∧ d.Answers q ∧ d.src = u := by
  cases e with
  | message d ω =>
    simp only [Happening.responder, Option.ite_none_right_eq_some, Option.some.injEq] at hresp
    exact ⟨d, ω, rfl, hresp⟩
  | env e => cases hresp

/-- The entry of a broadcast of `origin` is gone, or it counts `n` responses. -/
def Counting (t : Instant) (p : Proxy) (q : UInt32) (origin : SocketAddr) (n : ℕ) : Prop :=
  ∀ info, p.pendingRequests.get q = some info → info = ⟨origin, t, true, n, false⟩

/-- Until the entry is removed it counts the responses. -/
lemma after_counting {t : Instant} (hstart : Counting t p q origin 0)
    (hspare : ∀ e ∈ hs, e.Spares q) :
    Counting t (after p hs) q origin (responders q hs).length := by
  induction hs using List.reverseRecOn with
  | nil => exact hstart
  | append_singleton hs e ih =>
    have hcount := ih fun e' he' => hspare e' (List.mem_append_left _ he')
    intro info hget
    rw [after_snoc] at hget
    rw [responders_snoc]
    cases hresp : e.responder q with
    | none =>
      rw [apply_get_of_silent (hspare e (by simp)) hresp] at hget
      simpa using hcount info hget
    | some u =>
      obtain ⟨d, ω, rfl, hans, _⟩ := responder_eq_some hresp
      cases hbefore : (after p hs).pendingRequests.get q with
      | none =>
        rw [Happening.apply, handled_response_none _ ω hans hbefore] at hget
        cases hget
      | some info' =>
        obtain rfl := hcount info' hbefore
        rw [Happening.apply, (handled_response_broadcast _ ω hans hbefore rfl).1] at hget
        simp only [Option.ite_none_left_eq_some, Option.some.injEq] at hget
        simp [← hget.2]

lemma apply_get_none {e : Happening} (he : e.Spares q) (hget : p.pendingRequests.get q = none) :
    (e.apply p).pendingRequests.get q = none := by
  cases hresp : e.responder q with
  | none => rw [apply_get_of_silent he hresp, hget]
  | some u =>
    obtain ⟨d, ω, rfl, hans, _⟩ := responder_eq_some hresp
    exact handled_response_none _ ω hans hget

lemma Awaited.of_snoc {e : Happening} (h : Awaited q A (hs ++ [e])) : Awaited q A hs := by
  obtain ⟨u, hu, hnot⟩ := h
  refine ⟨u, hu, fun hm => hnot ?_⟩
  rw [responders_snoc]
  exact List.mem_append_left _ hm

lemma awaited_snoc_of_silent {e : Happening} (hresp : e.responder q = none) :
    Awaited q A (hs ++ [e]) ↔ Awaited q A hs := by
  simp [Awaited, responders_snoc, hresp]

/-- The entry is removed by a response, as its count says. -/
lemma after_response_get {t : Instant} {d : Datagram} (hcount : Counting t (after p hs) q origin
      (responders q hs).length) (hans : d.Answers q)
    (hget : (after p hs).pendingRequests.get q ≠ none) :
    (after p (hs ++ [.message d ω])).pendingRequests.get q ≠ none ↔
      ¬(forwardSucceeds ω = true ∧
        (after p hs).upfPool.backends.length ≤ (responders q hs).length + 1) := by
  obtain ⟨info, hinfo⟩ := Option.ne_none_iff_exists'.mp hget
  obtain rfl := hcount info hinfo
  rw [after_snoc, Happening.apply, (handled_response_broadcast _ ω hans hinfo rfl).1]
  simp

end Happenings

/-- The entry of a broadcast request tracks the backends the request was sent to if and only
if the counts match. -/
theorem broadcast_tracks_iff {h : Header} {hs : List Happening} (hd : d.header = some h)
    (hb : isBroadcastRequest h.msgType = true)
    (hsent : (reached ω d p).Nonempty)
    (hspare : ∀ e ∈ hs, e.Spares h.sequence) :
    Tracks (handled ω d p).state h.sequence d.src (reached ω d p) hs ↔
      CountsMatch (handled ω d p).state h.sequence (reached ω d p) hs := by
  have hstart := handled_broadcast p ω hd hb hsent
  have hcounting : ∀ pre post, hs = pre ++ post →
      Counting p.now (after (handled ω d p).state pre) h.sequence d.src
        (responders h.sequence pre).length := by
    rintro pre post rfl
    refine after_counting (fun info hget => ?_) fun e he => hspare e (List.mem_append_left _ he)
    rw [hstart, Option.some.injEq] at hget
    exact hget.symm
  constructor
  · rintro ⟨hentry, _⟩ pre r ω' post rfl hans hawait
    have hget := (hentry pre _ rfl).mpr hawait
    have hafter := hentry (pre ++ [.message r ω']) post (by simp)
    rw [after_response_get ω' (hcounting pre _ rfl) hans hget] at hafter
    rw [← hafter, not_not]
  · intro hmatch
    have hentry : ∀ pre post, hs = pre ++ post →
        ((after (handled ω d p).state pre).pendingRequests.get h.sequence ≠ none ↔
          Awaited h.sequence (reached ω d p) pre) := by
      intro pre
      induction pre using List.reverseRecOn with
      | nil =>
        intro post _
        rw [after_nil, hstart]
        obtain ⟨u, hu⟩ := hsent
        simp only [ne_eq, reduceCtorEq, not_false_eq_true, true_iff]
        exact ⟨u, hu, by simp [responders]⟩
      | append_singleton pre e ih =>
        intro post hsplit
        have ih' := ih (e :: post) (by simpa using hsplit)
        have he := hspare e (by simp [hsplit])
        cases hresp : e.responder h.sequence with
        | none => rw [after_snoc, apply_get_of_silent he hresp, ih', awaited_snoc_of_silent hresp]
        | some u =>
          obtain ⟨r, ω', rfl, hans, _⟩ := responder_eq_some hresp
          by_cases hawait : Awaited h.sequence (reached ω d p) pre
          · rw [after_response_get ω' (hcounting pre _ (by simpa using hsplit)) hans
              (ih'.mpr hawait), hmatch pre r ω' post (by simpa using hsplit) hans hawait, not_not]
          · -- everybody has answered before: the entry is gone and stays so
            have hnone : (after (handled ω d p).state pre).pendingRequests.get h.sequence = none := by
              by_contra hne
              exact hawait (ih'.mp hne)
            rw [after_snoc, apply_get_none he hnone]
            simp only [ne_eq, not_true_eq_false, false_iff]
            exact fun hawait' => hawait hawait'.of_snoc
    refine ⟨hentry, ?_⟩
    intro pre r ω' post hsplit hans hr hnot
    have hget := (hentry pre _ hsplit).mpr ⟨r.src, hr, hnot⟩
    obtain ⟨info, hinfo⟩ := Option.ne_none_iff_exists'.mp hget
    obtain rfl := hcounting pre _ hsplit info hinfo
    exact (handled_response_broadcast _ ω' hans hinfo rfl).2

/-! ### Two backends -/

/-- A heartbeat request. -/
def heartbeat : Datagram := message .heartbeatRequest none 1 smfA

/-- A response to it, which is forwarded. -/
def heartbeatAnswered (u : SocketAddr) : Happening :=
  .message (message .heartbeatResponse none 1 u) (fun _ => true)

lemma heartbeatAnswered_spares (u : SocketAddr) : (heartbeatAnswered u).Spares 1 := by
  rintro ⟨h, hh, _, hreq⟩
  cases hh
  cases hreq

lemma reached_heartbeat (u : SocketAddr) :
    u ∈ reached (fun _ => true) heartbeat (Proxy.new [upfX, upfY] .roundRobin) ↔
      u = upfX ∨ u = upfY := by
  have hsends : (handled (fun _ => true) heartbeat
      (Proxy.new [upfX, upfY] .roundRobin)).acts.filter (fun a => a.op.isSend) =
        [⟨.sendTo [0x21] upfX, true⟩, ⟨.sendTo [0x21] upfY, true⟩] := by
    decide +kernel
  have hmem : u ∈ reached (fun _ => true) heartbeat (Proxy.new [upfX, upfY] .roundRobin) ↔
      ⟨.sendTo [0x21] u, true⟩ ∈ (handled (fun _ => true) heartbeat
        (Proxy.new [upfX, upfY] .roundRobin)).acts.filter (fun a => a.op.isSend) := by
    simp [reached, heartbeat, message, Op.isSend]
  rw [hmem, hsends]
  simp

/-- Each of the two backends answers once. -/
theorem broadcast_tracks_heartbeat :
    Tracks (handled (fun _ => true) heartbeat (Proxy.new [upfX, upfY] .roundRobin)).state 1 smfA
      (reached (fun _ => true) heartbeat (Proxy.new [upfX, upfY] .roundRobin))
      [heartbeatAnswered upfX, heartbeatAnswered upfY] := by
  refine (broadcast_tracks_iff _ _ rfl rfl ⟨upfX, (reached_heartbeat _).mpr (.inl rfl)⟩ ?_).mpr ?_
  · intro e he
    simp only [List.mem_cons, List.not_mem_nil, or_false] at he
    rcases he with rfl | rfl
    · exact heartbeatAnswered_spares _
    · exact heartbeatAnswered_spares _
  · intro pre d ω post hsplit _ _
    rcases pre with _ | ⟨e₁, _ | ⟨e₂, pre⟩⟩
    · -- after the first response the other backend is awaited
      obtain ⟨hfirst, rfl⟩ := List.cons.inj hsplit
      obtain ⟨rfl, rfl⟩ := Happening.message.inj hfirst
      have hcount : ¬(after (handled (fun _ => true) heartbeat
          (Proxy.new [upfX, upfY] .roundRobin)).state []).upfPool.backends.length ≤
            (responders 1 []).length + 1 := by decide +kernel
      have hawaited : Awaited 1 (reached (fun _ => true) heartbeat
          (Proxy.new [upfX, upfY] .roundRobin)) [heartbeatAnswered upfX] :=
        ⟨upfY, (reached_heartbeat _).mpr (.inr rfl), by decide +kernel⟩
      exact iff_of_false (fun h => hcount h.2) (not_not.mpr hawaited)
    · -- the second response is the last one
      obtain ⟨rfl, hsplit'⟩ := List.cons.inj hsplit
      obtain ⟨hsecond, rfl⟩ := List.cons.inj hsplit'
      obtain ⟨rfl, rfl⟩ := Happening.message.inj hsecond
      refine iff_of_true ⟨rfl, by decide +kernel⟩ ?_
      rintro ⟨u, hu, hnot⟩
      rcases (reached_heartbeat u).mp hu with rfl | rfl
      · exact hnot (by decide +kernel)
      · exact hnot (by decide +kernel)
    · simp at hsplit

/-- One backend answers twice before the other: the response of the other is dropped. -/
theorem broadcast_tracks_fails :
    (∀ e ∈ [heartbeatAnswered upfX, heartbeatAnswered upfX, heartbeatAnswered upfY], e.Spares 1) ∧
    upfY ∈ reached (fun _ => true) heartbeat (Proxy.new [upfX, upfY] .roundRobin) ∧
    ¬Tracks (handled (fun _ => true) heartbeat (Proxy.new [upfX, upfY] .roundRobin)).state 1 smfA
      (reached (fun _ => true) heartbeat (Proxy.new [upfX, upfY] .roundRobin))
      [heartbeatAnswered upfX, heartbeatAnswered upfX, heartbeatAnswered upfY] := by
  refine ⟨?_, (reached_heartbeat _).mpr (.inr rfl), fun h => ?_⟩
  · intro e he
    simp only [List.mem_cons, List.not_mem_nil, or_false] at he
    rcases he with rfl | rfl | rfl <;> exact heartbeatAnswered_spares _
  · obtain ⟨⟨ok, hsent⟩, _⟩ := h.forwarded [heartbeatAnswered upfX, heartbeatAnswered upfX]
      (message .heartbeatResponse none 1 upfY) (fun _ => true) [] rfl ⟨_, rfl, rfl, rfl⟩
      ((reached_heartbeat _).mpr (.inr rfl)) (by decide +kernel)
    revert hsent
    cases ok <;> decide +kernel

end PfcpProxy
