import PfcpProxy.TestbedSessions
import PfcpProxy.FSeid

/-!
# The life of a session in the testbed

A session that is deleted after its establishment was answered has been on one UPF all the time,
and nothing remains of it.
-/

namespace PfcpProxy

open AtomicTasks

/-! ### Writes of an entry -/

lemma deletion_removes {d : Datagram} {s : UInt64} {q : UInt32}
    (hd : d.header = some ⟨.sessionDeletionRequest, some s, q⟩) :
    Guarded (fun _ _ => True)
      (fun _ l => ∀ u, ⟨.sessionLookup s, some u⟩ ∈ l → ⟨.sessionRemove s, ()⟩ ∈ l)
      (handleMessage d) [] := by
  rw [handleMessage_smf hd rfl]
  simp only [recordMessageReceived, routeMessage, routeAffinity, recordRoutingDecision,
    recordSessionDeleted, Prog.call_bind, Prog.act_bind, guarded_act, true_and]
  intro _ _ r
  cases r with
  | none => simp [forwardRequest]
  | some u =>
    simp only [Bool.false_eq_true, if_false, if_true, Prog.act_bind, Prog.pure_eq, Prog.done_bind,
      Prog.call_bind, guarded_act, true_and]
    intro _ _ _
    refine guarded_of_only (forwardRequest_only _ _ _ _) (fun l => ⟨.sessionRemove s, ()⟩ ∈ l)
      (by simp) (fun l o hl _ => ⟨trivial, fun r => List.mem_append_left _ hl⟩) ?_
    exact fun _ l hl _ _ => hl

section Runs

variable {p₀ : Proxy} {hist x y : History} {c : Config Op.Res Proxy Datagram} {i : ℕ}
  {seid : UInt64}

lemma inserter {u b : SocketAddr} (hr : Run proxy p₀ hist c)
    (hm : ⟨.sessionInsert seid u b, ()⟩ ∈ acts i hist) : ∃ d h, .recv i d ∈ hist ∧
      d.header = some h ∧ h.seid = some seid ∧
      (h.msgType = .sessionEstablishmentRequest ∨ isDefaultRequest h.msgType = true) := by
  obtain ⟨x, pre, y, rfl⟩ := exists_split_of_mem_acts hm
  obtain ⟨d, hd, h, hh, hseid, _, _, htype⟩ := conduct_of_act hr
  exact ⟨d, h, List.mem_append_left _ hd, hh, hseid, htype.imp_right And.left⟩

lemma remover (hr : Run proxy p₀ hist c) (hm : ⟨.sessionRemove seid, ()⟩ ∈ acts i hist) :
    ∃ d h, .recv i d ∈ hist ∧ d.header = some h ∧ h.seid = some seid ∧
      h.msgType = .sessionDeletionRequest := by
  obtain ⟨x, pre, y, rfl⟩ := exists_split_of_mem_acts hm
  obtain ⟨d, hd, h, hh, hseid, htype, _⟩ := conduct_of_act hr
  exact ⟨d, h, List.mem_append_left _ hd, hh, hseid, htype⟩

lemma written_once {a b : Act Op.Res} (hr : Run proxy p₀ hist c) (ha : a ∈ acts i hist)
    (hb : b ∈ acts i hist) (hwa : a.op.writesSession = true) (hwb : b.op.writesSession = true) :
    a = b := by
  obtain ⟨x, pre, y, rfl⟩ := exists_split_of_mem_acts ha
  obtain ⟨d, hd, _⟩ := conduct_of_act hr
  obtain ⟨_, _, hpath⟩ := hr.handler_path (List.mem_append_left _ hd)
  exact (handleMessage_conduct d).once (fun o => o.writesSession = true) hpath
    conduct_writes_once ha hb hwa hwb

lemma unwritten_before {a b : Act Op.Res} {pre : Proxy}
    (hr : Run proxy p₀ (x ++ .act i a pre :: y) c) (ha : a.op.writesSession = true)
    (hb : b ∈ acts i x) : b.op.writesSession = false := by
  obtain ⟨d, _, hconduct⟩ := conduct_of_act hr
  exact Bool.eq_false_iff.mpr (conduct_writes_once _ _ hconduct ha b hb)

/-- Where nothing is inserted after an entry was removed, there is none. -/
lemma lastWritten_of_remove {pre : Proxy} (hno : ∀ j u b, ⟨.sessionInsert seid u b, ()⟩ ∉ acts j y) :
    lastWritten seid (x ++ .act i ⟨.sessionRemove seid, ()⟩ pre :: y) = none := by
  induction y using List.reverseRecOn with
  | nil => simp [lastWritten_snoc, Event.sessionWrite]
  | append_singleton y e ih =>
    have hbefore : ∀ j u b, ⟨.sessionInsert seid u b, ()⟩ ∉ acts j y := fun j u b hm =>
      hno j u b (by simp [hm])
    rw [← List.cons_append, ← List.append_assoc, lastWritten_snoc, ih hbefore]
    cases e with
    | act j a pre' =>
      by_cases hkey : a.op.sessionKey = some seid
      · obtain ⟨o, r⟩ := a
        cases o with
        | sessionInsert s' u b =>
          cases hkey
          exact absurd (by simp) (hno j u b)
        | sessionRemove s' =>
          cases hkey
          simp [Event.sessionWrite]
        | _ => cases hkey
      · rw [sessionWrite_of_ne hkey, Option.getD_none]
    | _ => rfl

end Runs

namespace Testbed

variable {T : Testbed} {s s₁ : State} {a : SocketAddr} {q q₁ q₂ : UInt32} {seid : UInt64}

/-! ### An earlier state -/

/-- What holds of a state and one that is reached from it. -/
structure Earlier (T : Testbed) (s₁ s : State) (a : SocketAddr) : Prop where
  hist : s₁.hist <+: s.hist
  asked : s₁.asked <+: s.asked
  lone : Lone s₁ a
  undoubled : Undoubled s₁

lemma Earlier.of_steps (hsteps : Relation.ReflTransGen (Step T) s₁ s) (hl : Lone s a)
    (hu : Undoubled s) : Earlier T s₁ s a := by
  induction hsteps with
  | refl => exact ⟨List.prefix_rfl, List.prefix_rfl, hl, hu⟩
  | @tail s s' _ hstep ih =>
    have hg := hstep.grows
    have he := ih (hl.of_grows hg) (hu.of_grows hg)
    have hhist : s.hist <+: s'.hist := by
      rcases hg.hist with hsame | ⟨e, hmore⟩
      · rw [hsame]
      · exact hmore ▸ List.prefix_append _ _
    exact ⟨he.hist.trans hhist, he.asked.trans hg.asked, he.lone, he.undoubled⟩

/-- A response is to a copy that the proxy has sent before. -/
lemma Accounted.sent_of_answered (ha : Accounted T s) (hs : Sound T s) (hu : Undoubled s)
    (hanswered : 0 < s.answers T a q) : ∃ r d, (r, d) ∈ receptions s.hist ∧
      asksUnder q d.header = true ∧ ∃ u ok, ⟨.sendTo d.data u, ok⟩ ∈ acts r s.hist := by
  have hcopies : 0 < copiesSent q s.hist :=
    (hanswered.trans_le (hs.answers_le hu)).trans_le (ha.countP_answers_le hs hu)
  by_contra hnone
  apply hcopies.ne'
  apply List.sum_eq_zero
  intro n hn
  obtain ⟨⟨r, d⟩, hz, rfl⟩ := List.mem_map.mp hn
  split
  next hasks =>
    rw [List.countP_eq_zero]
    rintro ⟨o, ok⟩ hact hsend
    cases o with
    | sendTo data u =>
      obtain ⟨d', hd', rfl⟩ := sent_own hs.run hact
      obtain rfl := hs.run.recv_unique hd' (mem_receptions_iff.mp hz)
      exact hnone ⟨r, d', hz, hasks, u, ok, hact⟩
    | _ => cases hsend
  next => rfl

/-- The requests that the proxy has received are those of the client. -/
lemma Accounted.asked_of_received (ha : Accounted T s) (hs : Sound T s) (hl : Lone s a) {j : ℕ}
    {d : Datagram} {h : Header} (hd : .recv j d ∈ s.hist) (hh : d.header = some h)
    (hreq : isRequest h.msgType = true) : (a, some h) ∈ s.asked := by
  have hm := (ha.genuine_of_mem (hs.sent_of_received (mem_receptions_iff.mpr hd)) hh).mem_asked hreq
  rwa [show d.src = a from hl.all _ hm] at hm

lemma Accounted.insert_eq (ha : Accounted T s) (hs : Sound T s) (hl : Lone s a) (hu : Undoubled s)
    {r : ℕ} {d : Datagram} (hz : (r, d) ∈ receptions s.hist) (hasks : asksUnder q d.header = true)
    (hsole : ∀ h, (a, some h) ∈ s.asked → h.seid = some seid →
      h.msgType = .sessionEstablishmentRequest ∨ isDefaultRequest h.msgType = true →
      h.sequence = q) {j : ℕ} {v b : SocketAddr}
    (hm : ⟨.sessionInsert seid v b, ()⟩ ∈ acts j s.hist) : j = r := by
  obtain ⟨d', h, hd', hh, hseid, htype⟩ := inserter hs.run hm
  have hreq : isRequest h.msgType = true := by
    have hsmf : isSmfRequest h.msgType = true := by
      rw [isSmfRequest_iff]
      tauto
    simp [isRequest, hsmf]
  have hask := ha.asked_of_received hs hl hd' hh hreq
  have hsame := hs.asks_sole ha hl hu hz hasks (mem_receptions_iff.mpr hd')
    (by simp [asksUnder, hh, hreq, hsole h hask hseid htype])
  exact congrArg Prod.fst hsame

/-- The client has one session with the SEID: it establishes it once, under `q₁`, and deletes it once,
under `q₂`, which it asks for when the establishment is answered. -/
structure OneSession (T : Testbed) (s₁ s : State) (a : SocketAddr) (seid : UInt64)
    (q₁ q₂ : UInt32) : Prop where
  established : (a, some ⟨.sessionEstablishmentRequest, some seid, q₁⟩) ∈ s.asked
  deleted : (a, some ⟨.sessionDeletionRequest, some seid, q₂⟩) ∈ s.asked
  only : ∀ h, (a, some h) ∈ s.asked → h.seid = some seid → h.sequence = q₁ ∨ h.sequence = q₂
  answered : 0 < s₁.answers T a q₁
  later : (a, some ⟨.sessionDeletionRequest, some seid, q₂⟩) ∉ s₁.asked

section OneSession

variable {r r₂ : ℕ} {d d₂ : Datagram}

lemma OneSession.insert_eq (hone : OneSession T s₁ s a seid q₁ q₂) (hs : Sound T s)
    (ha : Accounted T s) (hl : Lone s a) (hu : Undoubled s) (hz : (r, d) ∈ receptions s.hist)
    (hasks : asksUnder q₁ d.header = true) {j : ℕ} {v b : SocketAddr}
    (hm : ⟨.sessionInsert seid v b, ()⟩ ∈ acts j s.hist) : j = r := by
  refine ha.insert_eq hs hl hu hz hasks (fun h hask hseid htype => ?_) hm
  rcases hone.only h hask hseid with hq | hq
  · exact hq
  · obtain rfl := hs.request_unique hl.few hask hone.deleted hq
    rcases htype with htype | htype <;> cases htype

lemma OneSession.remove_eq (hone : OneSession T s₁ s a seid q₁ q₂) (hs : Sound T s)
    (ha : Accounted T s) (hl : Lone s a) (hu : Undoubled s) (hz₂ : (r₂, d₂) ∈ receptions s.hist)
    (hasks₂ : asksUnder q₂ d₂.header = true) {j : ℕ}
    (hm : ⟨.sessionRemove seid, ()⟩ ∈ acts j s.hist) : j = r₂ := by
  obtain ⟨d', h, hd', hh, hseid, htype⟩ := remover hs.run hm
  have hreq : isRequest h.msgType = true := by rw [htype]; rfl
  have hask := ha.asked_of_received hs hl hd' hh hreq
  rcases hone.only h hask hseid with hq | hq
  · obtain rfl := hs.request_unique hl.few hask hone.established hq
    cases htype
  · have hsame := hs.asks_sole ha hl hu hz₂ hasks₂ (mem_receptions_iff.mpr hd')
      (by simp [asksUnder, hh, hreq, hq])
    exact congrArg Prod.fst hsame

/-- The entry was inserted before the earlier state, in which the establishment is answered. -/
lemma OneSession.inserted_before (hone : OneSession T s₁ s a seid q₁ q₂) (hr₁ : Reach T s₁)
    (he : Earlier T s₁ s a) (hs : Sound T s) (ha : Accounted T s) (hl : Lone s a)
    (hu : Undoubled s) (hz : (r, d) ∈ receptions s.hist)
    (hh : d.header = some ⟨.sessionEstablishmentRequest, some seid, q₁⟩)
    (hasks : asksUnder q₁ d.header = true) :
    ∃ v, ⟨.sessionInsert seid v d.src, ()⟩ ∈ acts r s₁.hist := by
  have ha₁ := hr₁.accounted he.lone.few
  obtain ⟨r', d', hz', hasks', v, ok, hsent⟩ :=
    ha₁.sent_of_answered hr₁.sound he.undoubled hone.answered
  have hd' := mem_receptions_iff.mp hz'
  have hsame := hs.asks_sole ha hl hu hz hasks (mem_receptions_iff.mpr (he.hist.subset hd')) hasks'
  simp only [Prod.mk.injEq] at hsame
  obtain ⟨rfl, rfl⟩ := hsame
  obtain ⟨_, _, hpath⟩ := hr₁.sound.run.handler_path hd'
  obtain ⟨l₁, l₂, hsplit⟩ := List.append_of_mem hsent
  rw [hsplit] at hpath ⊢
  exact ⟨v, List.mem_append_left _ ((establishment_sends hh).at_act hpath d'.data v rfl)⟩

lemma OneSession.prefix_of_recv (hone : OneSession T s₁ s a seid q₁ q₂) (hr₁ : Reach T s₁)
    (he : Earlier T s₁ s a) (hh₂ : d₂.header = some ⟨.sessionDeletionRequest, some seid, q₂⟩)
    {x y : History} (hsplit : s.hist = x ++ y) (hd₂ : .recv r₂ d₂ ∈ x) : s₁.hist <+: x := by
  rcases List.prefix_or_prefix_of_prefix he.hist (hsplit ▸ List.prefix_append x y) with h | h
  · exact h
  · have hm := (hr₁.accounted he.lone.few).asked_of_received hr₁.sound he.lone (h.subset hd₂) hh₂ rfl
    exact absurd hm hone.later

/-- Until the deletion has looked it up, nobody removes the entry. -/
lemma OneSession.kept (hone : OneSession T s₁ s a seid q₁ q₂) (hs : Sound T s) (ha : Accounted T s)
    (hl : Lone s a) (hu : Undoubled s) (hz₂ : (r₂, d₂) ∈ receptions s.hist)
    (hh₂ : d₂.header = some ⟨.sessionDeletionRequest, some seid, q₂⟩)
    (hasks₂ : asksUnder q₂ d₂.header = true) {x y : History} {res : Option SocketAddr} {pre : Proxy}
    (hsplit : s.hist = x ++ .act r₂ ⟨.sessionLookup seid, res⟩ pre :: y) (j : ℕ) :
    ⟨.sessionRemove seid, ()⟩ ∉ acts j x := by
  intro hrem
  obtain rfl : j = r₂ := hone.remove_eq hs ha hl hu hz₂ hasks₂ (by
    rw [hsplit, acts_append]
    exact List.mem_append_left _ hrem)
  -- it would have been looked up before
  obtain ⟨x', pre', y', rfl⟩ := exists_split_of_mem_acts hrem
  have hrun := hs.run
  rw [hsplit] at hrun
  obtain ⟨_, hrun'⟩ := hrun.of_append
  obtain ⟨_, _, _, _, _, _, _, v, hlook⟩ := conduct_of_act hrun'
  obtain ⟨_, _, hpath⟩ := hrun.handler_path (hsplit ▸ mem_receptions_iff.mp hz₂)
  rw [acts_append, acts_act_self] at hpath
  exact ((follows_request hh₂ (.inr rfl)).at_act hpath).2 rfl _
    (by rw [List.nil_append, acts_append]; exact List.mem_append_left _ hlook) rfl

/-- The deletion finds the UPF of the establishment. -/
lemma OneSession.found (hone : OneSession T s₁ s a seid q₁ q₂) (hr₁ : Reach T s₁)
    (he : Earlier T s₁ s a) (hs : Sound T s) (ha : Accounted T s) (hl : Lone s a)
    (hu : Undoubled s) (hz : (r, d) ∈ receptions s.hist)
    (hh : d.header = some ⟨.sessionEstablishmentRequest, some seid, q₁⟩)
    (hasks : asksUnder q₁ d.header = true) {u : SocketAddr}
    (hins : ⟨.sessionInsert seid u a, ()⟩ ∈ acts r s.hist) (hz₂ : (r₂, d₂) ∈ receptions s.hist)
    (hh₂ : d₂.header = some ⟨.sessionDeletionRequest, some seid, q₂⟩)
    (hasks₂ : asksUnder q₂ d₂.header = true) {res : Option SocketAddr}
    (hlook : ⟨.sessionLookup seid, res⟩ ∈ acts r₂ s.hist) : res = some u := by
  obtain ⟨x, pre, y, hsplit⟩ := exists_split_of_mem_acts hlook
  have hrun := hs.run
  rw [hsplit] at hrun
  obtain ⟨hd₂, _⟩ := conduct_of_recv hrun (hsplit ▸ mem_receptions_iff.mp hz₂)
  obtain ⟨c, _, hx, rfl, hres⟩ := act_exec hrun
  have hmore {j : ℕ} {b : Act Op.Res} (hb : b ∈ acts j x) : b ∈ acts j s.hist := by
    rw [hsplit, acts_append]
    exact List.mem_append_left _ hb
  obtain ⟨v, hins₁⟩ := hone.inserted_before hr₁ he hs ha hl hu hz hh hasks
  obtain ⟨w, rfl⟩ := hone.prefix_of_recv hr₁ he hh₂ hsplit hd₂
  have hins' : ⟨.sessionInsert seid v d.src, ()⟩ ∈ acts r (s₁.hist ++ w) := by
    rw [acts_append]
    exact List.mem_append_left _ hins₁
  obtain ⟨j, v', b, hins'', hget⟩ := lookupFull_of_insert hx
    (hone.kept hs ha hl hu hz₂ hh₂ hasks₂ hsplit) ⟨r, v, d.src, hins'⟩
  obtain rfl : j = r := hone.insert_eq hs ha hl hu hz hasks (hmore hins'')
  have hsame := congrArg Act.op (written_once hs.run (hmore hins'') hins rfl rfl)
  simp only [Op.sessionInsert.injEq] at hsame
  obtain ⟨_, rfl, _⟩ := hsame
  have hfound : res = c.shared.sessionTable.lookup seid := hres
  rw [hfound, SessionTable.lookup_eq, hget]
  rfl

lemma OneSession.gone (hone : OneSession T s₁ s a seid q₁ q₂) (hr₁ : Reach T s₁)
    (he : Earlier T s₁ s a) (hs : Sound T s) (ha : Accounted T s) (hl : Lone s a)
    (hu : Undoubled s) (hz : (r, d) ∈ receptions s.hist)
    (hh : d.header = some ⟨.sessionEstablishmentRequest, some seid, q₁⟩)
    (hasks : asksUnder q₁ d.header = true) (hz₂ : (r₂, d₂) ∈ receptions s.hist)
    (hh₂ : d₂.header = some ⟨.sessionDeletionRequest, some seid, q₂⟩)
    (hrem : ⟨.sessionRemove seid, ()⟩ ∈ acts r₂ s.hist) :
    s.proxy.shared.sessionTable.lookup seid = none := by
  obtain ⟨x, pre, y, hsplit⟩ := exists_split_of_mem_acts hrem
  have hrun := hs.run
  rw [hsplit] at hrun
  obtain ⟨hd₂, _⟩ := conduct_of_recv hrun (hsplit ▸ mem_receptions_iff.mp hz₂)
  obtain ⟨v, hins⟩ := hone.inserted_before hr₁ he hs ha hl hu hz hh hasks
  obtain ⟨w, rfl⟩ := hone.prefix_of_recv hr₁ he hh₂ hsplit hd₂
  have hnone : lastWritten seid s.hist = none := by
    rw [hsplit]
    apply lastWritten_of_remove
    intro j u b hm
    obtain rfl : j = r := hone.insert_eq hs ha hl hu hz hasks (v := u) (b := b) (by
      rw [hsplit, ← List.singleton_append, acts_append, acts_append _ [_]]
      exact List.mem_append_right _ (List.mem_append_right _ hm))
    obtain ⟨y₁, pre', y₂, rfl⟩ := exists_split_of_mem_acts hm
    rw [← List.cons_append, ← List.append_assoc] at hrun
    have hunwritten := unwritten_before hrun rfl (b := ⟨.sessionInsert seid v d.src, ()⟩) (by
      rw [acts_append, acts_append]
      exact List.mem_append_left _ (List.mem_append_left _ hins))
    cases hunwritten
  rw [SessionTable.lookup_eq, lookupFull_eq_lastWritten rfl hs.run, hnone]
  rfl

lemma OneSession.led (hone : OneSession T s₁ s a seid q₁ q₂) (hr₁ : Reach T s₁)
    (he : Earlier T s₁ s a) (hs : Sound T s) (ha : Accounted T s) (hl : Lone s a)
    (hset : Settled s) (hz : (r, d) ∈ receptions s.hist)
    (hh : d.header = some ⟨.sessionEstablishmentRequest, some seid, q₁⟩)
    (hasks : asksUnder q₁ d.header = true) {u : SocketAddr}
    (hins : ⟨.sessionInsert seid u a, ()⟩ ∈ acts r s.hist) (hz₂ : (r₂, d₂) ∈ receptions s.hist)
    (hh₂ : d₂.header = some ⟨.sessionDeletionRequest, some seid, q₂⟩)
    (hasks₂ : asksUnder q₂ d₂.header = true) :
    (∃ ok, ⟨.sendTo d₂.data u, ok⟩ ∈ acts r₂ s.hist) ∧
      ⟨.sessionRemove seid, ()⟩ ∈ acts r₂ s.hist := by
  have hd₂ := mem_receptions_iff.mp hz₂
  have hpath₂ := (hset.handled.finished hs.run hd₂).path hs.run hd₂
  obtain ⟨res, hlook, hsends⟩ := (follows_request hh₂ (.inr rfl)).path hpath₂
  rw [List.nil_append] at hlook
  obtain rfl := hone.found hr₁ he hs ha hl hset.undoubled hz hh hasks hins hz₂ hh₂ hasks₂ hlook
  exact ⟨hsends u rfl, (deletion_removes hh₂).path hpath₂ u hlook⟩

/-- Of a session that is over the proxy has no entry. -/
lemma OneSession.ended (hone : OneSession T s₁ s a seid q₁ q₂) (hr₁ : Reach T s₁)
    (hsteps : Relation.ReflTransGen (Step T) s₁ s) (hl : Lone s a) (hset : Settled s)
    (hne : T.backends ≠ []) : s.proxy.shared.sessionTable.lookup seid = none := by
  have hr : Reach T s := hr₁.steps hsteps
  have he := Earlier.of_steps hsteps hl hset.undoubled
  have ha := hr.accounted hl.few
  obtain ⟨r, d, u, ok, hz, _, hh, hasks, hins, _⟩ := hset.established hr hl hne hone.established
  obtain ⟨r₂, d₂, hz₂, _, hh₂, hasks₂⟩ := hset.asked_received hr hl hone.deleted
  obtain ⟨_, hrem⟩ := hone.led hr₁ he hr.sound ha hl hset hz hh hasks hins hz₂ hh₂ hasks₂
  exact hone.gone hr₁ he hr.sound ha hl hset.undoubled hz hh hasks hz₂ hh₂ hrem

/-- A session stays on its UPF until its end: if a lone client deletes its session after the
establishment was answered, then once everything has arrived, and nothing was lost, it has received
one response to each of the two requests, both from the same UPF, and the proxy has forgotten the
session. -/
theorem session_on_one_upf (hr₁ : Reach T s₁) (hsteps : Relation.ReflTransGen (Step T) s₁ s)
    (hl : Lone s a) (hset : Settled s)
    (hbuilds : ∀ seid n ip, T.codec.buildsResponse seid n ip = true) (hne : T.backends ≠ [])
    (hone : OneSession T s₁ s a seid q₁ q₂) :
    ∃ u, s.answers T a q₁ = 1 ∧ s.answers T a q₂ = 1 ∧
      (∀ j d, .recv j d ∈ s.hist → d.Answers q₁ ∨ d.Answers q₂ → d.src = u) ∧
      s.proxy.shared.sessionTable.lookup seid = none := by
  have hr : Reach T s := hr₁.steps hsteps
  have he := Earlier.of_steps hsteps hl hset.undoubled
  have ha := hr.accounted hl.few
  obtain ⟨r, d, u, ok, hz, hsrc, hh, hasks, hins, hsent⟩ :=
    hset.established hr hl hne hone.established
  obtain ⟨r₂, d₂, hz₂, hsrc₂, hh₂, hasks₂⟩ := hset.asked_received hr hl hone.deleted
  obtain ⟨⟨ok₂, hsent₂⟩, _⟩ := hone.led hr₁ he hr.sound ha hl hset hz hh hasks hins hz₂ hh₂ hasks₂
  obtain ⟨hone₁, hfrom₁⟩ := hset.served hr hl hbuilds hz hsrc hh hasks rfl hsent
  obtain ⟨hone₂, hfrom₂⟩ := hset.served hr hl hbuilds hz₂ hsrc₂ hh₂ hasks₂ rfl hsent₂
  refine ⟨u, hone₁, hone₂, fun j d' hj hans => ?_, hone.ended hr₁ hsteps hl hset hne⟩
  exact hans.elim (hfrom₁ j d' hj) (hfrom₂ j d' hj)

end OneSession

/-! ### The sessions that are open -/

lemma Reach.kind (hr : Reach T s) {b : SocketAddr} {h : Header} (hm : (b, some h) ∈ s.asked) :
    (isBroadcastRequest h.msgType = true ∧ h.seid = none) ∨
      ∃ seid, h.seid = some seid ∧ (h.msgType = .sessionEstablishmentRequest ∨
        h.msgType = .sessionDeletionRequest) := by
  induction hr with
  | start => cases hm
  | step _ hstep ih =>
    cases hstep with
    | ask a call body _ =>
      rcases List.mem_append.mp hm with hm | hm
      · exact ih hm
      · obtain ⟨_, hrun⟩ := Prod.mk.injEq .. ▸ List.mem_singleton.mp hm
        exact TestSmf.run_kind hrun.symm
    | _ => exact ih hm

lemma Reach.about_session (hr : Reach T s) {b : SocketAddr} {h : Header}
    (hm : (b, some h) ∈ s.asked) (hseid : h.seid = some seid) :
    h.msgType = .sessionEstablishmentRequest ∨ h.msgType = .sessionDeletionRequest := by
  rcases hr.kind hm with ⟨_, hnone⟩ | ⟨_, _, htype⟩
  · cases hnone.symm.trans hseid
  · exact htype

/-- A session that is established once and not deleted is asked about once. -/
lemma Reach.sole (hr : Reach T s)
    (honce : ∀ n, (a, some ⟨.sessionEstablishmentRequest, some seid, n⟩) ∈ s.asked → n = q)
    (hopen : ∀ n, (a, some ⟨.sessionDeletionRequest, some seid, n⟩) ∉ s.asked) {h : Header}
    (hm : (a, some h) ∈ s.asked) (hseid : h.seid = some seid) : h.sequence = q := by
  obtain ⟨t, sd, n⟩ := h
  obtain rfl : sd = some seid := hseid
  rcases hr.about_session hm rfl with rfl | rfl
  · exact honce n hm
  · exact absurd hm (hopen n)

/-- The client establishes a session once, and deletes it at most once and only after the answer. -/
structure Careful (T : Testbed) (s : State) (a : SocketAddr) : Prop where
  once : ∀ seid q q', (a, some ⟨.sessionEstablishmentRequest, some seid, q⟩) ∈ s.asked →
    (a, some ⟨.sessionEstablishmentRequest, some seid, q'⟩) ∈ s.asked → q = q'
  patient : ∀ seid q₂, (a, some ⟨.sessionDeletionRequest, some seid, q₂⟩) ∈ s.asked →
    ∃ s₁ q₁, Reach T s₁ ∧ Relation.ReflTransGen (Step T) s₁ s ∧ OneSession T s₁ s a seid q₁ q₂

/-- The client has established the session and not deleted it, and the UPF has responded. -/
def State.OpenOn (s : State) (a : SocketAddr) (seid : UInt64) (u : SocketAddr) : Prop :=
  ∃ q, (a, some ⟨.sessionEstablishmentRequest, some seid, q⟩) ∈ s.asked ∧
    (∀ q₂, (a, some ⟨.sessionDeletionRequest, some seid, q₂⟩) ∉ s.asked) ∧
    ∃ j d, .recv j d ∈ s.hist ∧ d.Answers q ∧ d.src = u

/-- An open session has its entry, of the UPF that responds. -/
lemma Careful.kept (hcare : Careful T s a) (hr : Reach T s) (hl : Lone s a) (hset : Settled s)
    (hbuilds : ∀ seid n ip, T.codec.buildsResponse seid n ip = true) (hne : T.backends ≠ [])
    (hm : (a, some ⟨.sessionEstablishmentRequest, some seid, q⟩) ∈ s.asked)
    (hopen : ∀ q₂, (a, some ⟨.sessionDeletionRequest, some seid, q₂⟩) ∉ s.asked) :
    ∃ u, s.proxy.shared.sessionTable.lookupFull seid = some (u, a) ∧ 0 < s.answers T a q ∧
      ∀ j d, .recv j d ∈ s.hist → d.Answers q → d.src = u := by
  have hs := hr.sound
  have ha := hr.accounted hl.few
  obtain ⟨r, d, u, ok, hz, hsrc, hh, hasks, hins, hsent⟩ := hset.established hr hl hne hm
  obtain ⟨hone, hfrom⟩ := hset.served hr hl hbuilds hz hsrc hh hasks rfl hsent
  have hnone (j : ℕ) : ⟨.sessionRemove seid, ()⟩ ∉ acts j s.hist := by
    intro hrem
    obtain ⟨d', ⟨t, sd, n⟩, hd', hh', rfl, rfl⟩ := remover hs.run hrem
    exact hopen n (ha.asked_of_received hs hl hd' hh' rfl)
  obtain ⟨j, v, b, hins', hget⟩ := lookupFull_of_insert hs.run hnone ⟨r, u, a, hins⟩
  obtain rfl : j = r := ha.insert_eq hs hl hset.undoubled hz hasks
    (fun h hask hseid _ => hr.sole (fun n hn => hcare.once seid n q hn hm) hopen hask hseid) hins'
  have hsame := congrArg Act.op (written_once hs.run hins' hins rfl rfl)
  simp only [Op.sessionInsert.injEq, true_and] at hsame
  obtain ⟨rfl, rfl⟩ := hsame
  exact ⟨v, hget, hone ▸ Nat.one_pos, hfrom⟩

/-- The session table agrees with the client: once everything has arrived, and nothing was lost, a
lone client that deletes its sessions only after they were answered finds in the proxy's table
those that it has not deleted, each with the UPF that has responded to its establishment, and
nothing else. -/
theorem sessions_agree (hr : Reach T s) (hl : Lone s a) (hset : Settled s)
    (hbuilds : ∀ seid n ip, T.codec.buildsResponse seid n ip = true) (hne : T.backends ≠ [])
    (hcare : Careful T s a) (seid : UInt64) (u b : SocketAddr) :
    s.proxy.shared.sessionTable.lookupFull seid = some (u, b) ↔ b = a ∧ s.OpenOn a seid u := by
  have hs := hr.sound
  have ha := hr.accounted hl.few
  constructor
  · intro hget
    obtain ⟨i, hins⟩ := session_origin rfl hs.run hget
    obtain ⟨d, ⟨t, sd, q⟩, hd, hh, rfl, htype⟩ := inserter hs.run hins
    have hsmf : isSmfRequest t = true := by
      rw [isSmfRequest_iff]
      tauto
    have hm := ha.asked_of_received hs hl hd hh (by simp [isRequest, hsmf])
    have hopen : ∀ q₂, (a, some ⟨.sessionDeletionRequest, some seid, q₂⟩) ∉ s.asked := by
      intro q₂ hdel
      obtain ⟨s₁, q₁, hr₁, hsteps, hone⟩ := hcare.patient seid q₂ hdel
      have hgone := hone.ended hr₁ hsteps hl hset hne
      rw [SessionTable.lookup_eq, hget] at hgone
      cases hgone
    obtain rfl : t = .sessionEstablishmentRequest :=
      (hr.about_session hm rfl).resolve_right fun hdel => hopen q (hdel ▸ hm)
    obtain ⟨v, hget', hpos, hfrom⟩ := hcare.kept hr hl hset hbuilds hne hm hopen
    rw [hget, Option.some.injEq, Prod.mk.injEq] at hget'
    obtain ⟨rfl, rfl⟩ := hget'
    -- the client has a response, which the proxy has received
    obtain ⟨⟨j, d'⟩, hz', hans⟩ :=
      List.countP_pos_iff.mp (hpos.trans_le (hs.answers_le hset.undoubled))
    have hans' := answersUnder_iff.mp hans
    have hj := mem_receptions_iff.mp hz'
    exact ⟨rfl, q, hm, hopen, j, d', hj, hans', hfrom j d' hj hans'⟩
  · rintro ⟨rfl, q, hm, hopen, j, d, hj, hans, rfl⟩
    obtain ⟨v, hget, _, hfrom⟩ := hcare.kept hr hl hset hbuilds hne hm hopen
    rw [hget, hfrom j d hj hans]

/-! ### Two sessions of one client -/

def deletion : List UInt8 := Codec.marshalHeader ⟨.sessionDeletionRequest, some 7, 3⟩ []
def deleted : List UInt8 := Codec.marshalHeader ⟨.sessionDeletionResponse, some 7, 3⟩ [0, 19, 0, 1, 1]
def secondBody : List UInt8 := establishmentBody.set 21 8
def second : List UInt8 :=
  Codec.marshalHeader ⟨.sessionEstablishmentRequest, some 8, 4⟩ secondBody
def secondAcceptedBody : List UInt8 := (acceptedBody.set 17 8).set 21 2
def secondAccepted : List UInt8 :=
  Codec.marshalHeader ⟨.sessionEstablishmentResponse, some 8, 4⟩ secondAcceptedBody

/-- The client deletes its session and establishes another one. -/
def deleting : List twoBackends.Move :=
  .ask smfA (.deleteSession 7) [] ::
  .receive (datagram .plain smfA deletion) :: handled 5 ++
  .respond (deletion, upfX) [0, 19, 0, 1, 1] ::
  .receive (datagram .plain upfX deleted) :: handled 6 ++
  .arrive (deleted, smfA) ::
  .ask smfA (.establishSession 8) secondBody ::
  .receive (datagram .plain smfA second) :: handled 7 ++
  .respond (second, upfY) secondAcceptedBody ::
  .receive (datagram .plain upfY secondAccepted) :: handled 8 ++
  [.arrive (secondAccepted, smfA)]

def lived : State := follow deleting answered

lemma lived_steps : Relation.ReflTransGen (Step twoBackends) answered lived :=
  follow_steps deleting answered

lemma lived_asked : lived.asked =
    [(smfA, some ⟨.heartbeatRequest, none, 1⟩),
      (smfA, some ⟨.sessionEstablishmentRequest, some 7, 2⟩),
      (smfA, some ⟨.sessionDeletionRequest, some 7, 3⟩),
      (smfA, some ⟨.sessionEstablishmentRequest, some 8, 4⟩)] := by
  decide +kernel

lemma lived_lone : Lone lived smfA where
  all := by simp [lived_asked]
  few := few_of_length (by simp [lived_asked])

lemma lived_settled : Settled lived where
  toProxy := ⟨by decide +kernel, by decide +kernel, by decide +kernel⟩
  fromProxy := ⟨by decide +kernel, by decide +kernel, by decide +kernel⟩
  handled := quiescent_of_all (by decide +kernel)
  sends := allSendsSucceed_of_all (by decide +kernel)
  pool := by
    rw [← List.length_eq_zero_iff]
    decide +kernel
  prompt := prompt_of_all (by decide +kernel)

lemma lived_oneSession : OneSession twoBackends answered lived smfA 7 2 3 where
  established := by simp [lived_asked]
  deleted := by simp [lived_asked]
  only := by
    intro h hm hseid
    simp only [lived_asked, List.mem_cons, List.not_mem_nil, or_false, Prod.mk.injEq, true_and,
      Option.some.injEq] at hm
    rcases hm with rfl | rfl | rfl | rfl <;> simp_all
  answered := by decide +kernel
  later := by decide +kernel

lemma lived_careful : Careful twoBackends lived smfA where
  once := by
    intro seid q q' hq hq'
    have hwhich : seid = 7 ∧ q = 2 ∨ seid = 8 ∧ q = 4 := by simpa [lived_asked] using hq
    have hwhich' : seid = 7 ∧ q' = 2 ∨ seid = 8 ∧ q' = 4 := by simpa [lived_asked] using hq'
    rcases hwhich with ⟨rfl, rfl⟩ | ⟨rfl, rfl⟩ <;> simp_all
  patient := by
    intro seid q₂ hdel
    obtain ⟨rfl, rfl⟩ : seid = 7 ∧ q₂ = 3 := by simpa [lived_asked] using hdel
    exact ⟨answered, 2, answered_reach, lived_steps, lived_oneSession⟩

/-- Session 7 is established, answered and deleted. -/
theorem session_on_one_upf_seven : ∃ u, lived.answers twoBackends smfA 2 = 1 ∧
    lived.answers twoBackends smfA 3 = 1 ∧
    (∀ j d, .recv j d ∈ lived.hist → d.Answers 2 ∨ d.Answers 3 → d.src = u) ∧
    lived.proxy.shared.sessionTable.lookup 7 = none :=
  session_on_one_upf answered_reach lived_steps lived_lone lived_settled (fun _ _ _ => rfl)
    (by decide) lived_oneSession

/-- Session 8 is open. -/
theorem sessions_agree_eight : lived.proxy.shared.sessionTable.lookupFull 8 = some (upfY, smfA) ∧
    lived.OpenOn smfA 8 upfY := by
  have hget : lived.proxy.shared.sessionTable.lookupFull 8 = some (upfY, smfA) := by decide +kernel
  have hagree := sessions_agree (answered_reach.steps lived_steps) lived_lone lived_settled
    (fun _ _ _ => rfl) (by decide) lived_careful 8 upfY smfA
  exact ⟨hget, (hagree.mp hget).2⟩

end Testbed

end PfcpProxy
