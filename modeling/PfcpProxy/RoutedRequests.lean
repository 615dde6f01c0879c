import PfcpProxy.Affinity

/-!
# The session table as routed requests leave it

An entry of the session table is read off the requests: it is there where the last request under
its SEID that was routed, and that is no mere user of the entry, asks for an UPF, and it holds the
UPF that this request was balanced to.
-/

namespace PfcpProxy

open AtomicTasks

/-- The acts `l` take the handler of `d` up to the decision of `route_message`. -/
def RoutesTo (d : Datagram) (l : Acts) (dec : RoutingDecision) : Prop :=
  ∃ h l₁ l₂, d.header = some h ∧ l = l₁ ++ l₂ ∧
    Path (recordMessageReceived h.msgType) l₁ (.done ()) ∧
    Path (routeMessage h.msgType h.seid d.src) l₂ (.done dec)

/-- The request asks for an UPF under the SEID: it is an establishment, or a request of the last
arm whose handler calls `select_upf`. -/
def AsksUpf (d : Datagram) (l : Acts) (s : UInt64) : Prop :=
  ∃ h, d.header = some h ∧ h.seid = some s ∧
    (h.msgType = .sessionEstablishmentRequest ∨
      isDefaultRequest h.msgType = true ∧ ∃ st, ⟨.poolStrategy, st⟩ ∈ l)

def Deletes (d : Datagram) (s : UInt64) : Prop :=
  ∃ h, d.header = some h ∧ h.seid = some s ∧ h.msgType = .sessionDeletionRequest

/-- With the entry `e` behind `x`, the request `d` of task `i` comes to be routed to `u`. -/
def RoutedBy (x : History) (e : Event Op.Res Proxy Datagram Env) (i : ℕ) (d : Datagram)
    (u : SocketAddr) : Prop :=
  ∃ a pre, e = .act i a pre ∧ .recv i d ∈ x ∧ RoutesTo d (acts i x ++ [a]) (.single u)

/-- The request that comes to be routed asks for an UPF under the SEID for the SMF `a`, and is
balanced to `u`. -/
def Balances (s : UInt64) (u a : SocketAddr) (x : History)
    (e : Event Op.Res Proxy Datagram Env) : Prop :=
  ∃ i d, RoutedBy x e i d u ∧ AsksUpf d (acts i x) s ∧ d.src = a

/-- The request that comes to be routed asks for an UPF under the SEID, or deletes its session. -/
def Replaces (s : UInt64) (x : History) (e : Event Op.Res Proxy Datagram Env) : Prop :=
  ∃ i d u, RoutedBy x e i d u ∧ (AsksUpf d (acts i x) s ∨ Deletes d s)

/-- The last request under the SEID to ask for an UPF came from `a` and was balanced to `u`, and
no deletion under it was routed since. -/
def LastBalanced (h : History) (s : UInt64) (u a : SocketAddr) : Prop :=
  Since (Balances s u a) (Replaces s) h

/-! ### What routing does last -/

section Routing

variable {s : UInt64} {seid : Option UInt64} {src u : SocketAddr} {t : MsgType} {l : Acts}
  {o : Op} {k : o.Res → Handler RoutingDecision}

lemma selectUpf_strategy {r : Option SocketAddr} (hp : Path selectUpf l (.done r)) :
    ∃ st, ⟨.poolStrategy, st⟩ ∈ l := by
  cases hp with
  | cons st _ => exact ⟨st, by simp⟩

lemma Op.not_selection (ho : o.writesSession = true) : ¬o.isSelection = true := by
  cases o <;> simp_all [Op.writesSession, Op.isSelection]

lemma routeEstablishment_write (hp : Path (routeEstablishment seid src) l (.act o k))
    (ho : o.writesSession = true) :
    ∃ s u, seid = some s ∧ o = .sessionInsert s u src ∧ ∀ r, k r = .done (.single u) := by
  obtain ⟨r, l₁, l₂, rfl, _, hrest⟩ :=
    path_bind_act (P := fun o => o.isSelection = true) hp selectUpf_only (Op.not_selection ho)
  cases r with
  | none => cases (path_done_iff.mp hrest).2
  | some u =>
    cases hrest with
    | nil => cases ho
    | cons _ hrest =>
    cases hrest with
    | nil => cases ho
    | cons _ hrest =>
    cases seid with
    | none => cases (path_done_iff.mp hrest).2
    | some s =>
      cases hrest with
      | nil => exact ⟨s, u, rfl, rfl, fun _ => rfl⟩
      | cons _ hrest => cases (path_done_iff.mp hrest).2

lemma routeDefault_write (hp : Path (routeDefault seid src) l (.act o k))
    (ho : o.writesSession = true) :
    ∃ s u, seid = some s ∧ o = .sessionInsert s u src ∧ (∀ r, k r = .done (.single u)) ∧
      ∃ st, ⟨.poolStrategy, st⟩ ∈ l := by
  cases seid with
  | none =>
    obtain ⟨r, l₁, l₂, rfl, _, hrest⟩ :=
      path_bind_act (P := fun o => o.isSelection = true) hp selectUpf_only (Op.not_selection ho)
    cases r with
    | none => cases (path_done_iff.mp hrest).2
    | some u =>
      cases hrest with
      | nil => cases ho
      | cons _ hrest => cases (path_done_iff.mp hrest).2
  | some s =>
    simp only [routeDefault, Prog.call_bind] at hp
    cases hp with
    | nil => cases ho
    | cons r hp =>
    cases r with
    | some u =>
      cases hp with
      | nil => cases ho
      | cons _ hp => cases (path_done_iff.mp hp).2
    | none =>
      obtain ⟨r, l₁, l₂, rfl, hsel, hrest⟩ :=
        path_bind_act (P := fun o => o.isSelection = true) hp selectUpf_only (Op.not_selection ho)
      obtain ⟨st, hst⟩ := selectUpf_strategy hsel
      cases r with
      | none => cases (path_done_iff.mp hrest).2
      | some u =>
        cases hrest with
        | nil => cases ho
        | cons _ hrest =>
        cases hrest with
        | nil => exact ⟨s, u, rfl, rfl, fun _ => rfl, st, by simp [hst]⟩
        | cons _ hrest => cases (path_done_iff.mp hrest).2

lemma routeAffinity_write (hp : Path (routeAffinity t seid) l (.act o k))
    (ho : o.writesSession = true) :
    ∃ s u, seid = some s ∧ t = .sessionDeletionRequest ∧ o = .sessionRemove s ∧
      ∀ r, k r = .done (.single u) := by
  cases seid with
  | none => cases (path_done_iff.mp hp).2
  | some s =>
    cases hp with
    | nil => cases ho
    | cons r hp =>
    cases r with
    | none => cases (path_done_iff.mp hp).2
    | some u =>
      cases hp with
      | nil => cases ho
      | cons _ hp =>
      by_cases ht : t = .sessionDeletionRequest
      · rw [if_pos ht] at hp
        cases hp with
        | nil => cases ho
        | cons _ hp =>
        cases hp with
        | nil => exact ⟨s, u, rfl, ht, rfl, fun _ => rfl⟩
        | cons _ hp => cases (path_done_iff.mp hp).2
      · rw [if_neg ht] at hp
        cases (path_done_iff.mp hp).2

/-- What writes the session table is an insertion for the UPF that is asked for, or the removal of
a deletion, and decides the routing. -/
lemma routeMessage_write {h : Header} (ht : isSmfRequest h.msgType = true)
    (hp : Path (routeMessage h.msgType h.seid src) l (.act o k)) (ho : o.writesSession = true) :
    ∃ s u, h.seid = some s ∧ (∀ r, k r = .done (.single u)) ∧
      (o = .sessionInsert s u src ∧ (h.msgType = .sessionEstablishmentRequest ∨
          isDefaultRequest h.msgType = true ∧ ∃ st, ⟨.poolStrategy, st⟩ ∈ l) ∨
        o = .sessionRemove s ∧ h.msgType = .sessionDeletionRequest) := by
  obtain ⟨t, seid, q⟩ := h
  rcases (isSmfRequest_iff t).mp ht with hb | rfl | rfl | rfl | hdef
  · rw [routeMessage_of_broadcast hb] at hp
    have hquiet : Only (fun o => o.writesSession = false) routeBroadcast := by
      simp [routeBroadcast, recordRoutingDecision, Op.writesSession]
    rw [hp.only_next hquiet] at ho
    cases ho
  · obtain ⟨s, u, hs, hop, hk⟩ := routeEstablishment_write hp ho
    exact ⟨s, u, hs, hk, .inl ⟨hop, .inl rfl⟩⟩
  · obtain ⟨s, u, _, htype, _⟩ := routeAffinity_write hp ho
    cases htype
  · obtain ⟨s, u, hs, _, hop, hk⟩ := routeAffinity_write hp ho
    exact ⟨s, u, hs, hk, .inr ⟨hop, rfl⟩⟩
  · rw [routeMessage_of_default hdef] at hp
    obtain ⟨s, u, hs, hop, hk, hst⟩ := routeDefault_write hp ho
    exact ⟨s, u, hs, hk, .inl ⟨hop, .inr ⟨hdef, hst⟩⟩⟩

lemma routeDefault_inserts (hp : Path (routeDefault (some s) src) l (.done (.single u)))
    (hst : ∃ st, ⟨.poolStrategy, st⟩ ∈ l) : ⟨.sessionInsert s u src, ()⟩ ∈ l := by
  have hg : Guarded (fun _ _ => True)
      (fun dec l => ∀ u, dec = .single u → (∃ st, ⟨.poolStrategy, st⟩ ∈ l) →
        ⟨.sessionInsert s u src, ()⟩ ∈ l) (routeDefault (some s) src) [] := by
    simp only [routeDefault, Prog.call_bind, guarded_act, true_and]
    intro r
    cases r with
    | some u => simp [recordRoutingDecision]
    | none =>
      rw [guarded_bind]
      apply guarded_selectUpf (fun _ _ _ => trivial)
      intro r x _
      cases r with
      | none => simp
      | some u => simp [recordRoutingDecision]
  exact hg.path hp u rfl hst

lemma routeAffinity_removes
    (hp : Path (routeAffinity .sessionDeletionRequest (some s)) l (.done (.single u))) :
    ⟨.sessionRemove s, ()⟩ ∈ l := by
  have hg : Guarded (fun _ _ => True)
      (fun dec l => ∀ u, dec = .single u → ⟨.sessionRemove s, ()⟩ ∈ l)
      (routeAffinity .sessionDeletionRequest (some s)) [] := by
    simp only [routeAffinity, Prog.call_bind, guarded_act, true_and]
    intro r
    cases r with
    | none => simp
    | some u => simp [recordRoutingDecision, recordSessionDeleted]
  exact hg.path hp u rfl

/-- Routing ends with the act that writes the session table, if there is one. -/
lemma routeMessage_ends {h : Header} (ht : isSmfRequest h.msgType = true) {dec : RoutingDecision}
    (hp : Path (routeMessage h.msgType h.seid src) l (.done dec)) {a : Act Op.Res} (ha : a ∈ l)
    (hw : a.op.writesSession = true) : ∃ l', l = l' ++ [a] := by
  obtain ⟨l', l'', rfl⟩ := List.append_of_mem ha
  obtain ⟨p, hp₁, hp₂⟩ := path_append_iff.mp hp
  cases hp₂ with
  | cons r hp₂ =>
    obtain ⟨s, u, _, hk, _⟩ := routeMessage_write ht hp₁ hw
    rw [hk, path_done_iff] at hp₂
    exact ⟨l', by rw [hp₂.1]⟩

end Routing

/-! ### Requests and what they write -/

section Requests

variable {d : Datagram} {l : Acts} {s : UInt64} {u : SocketAddr}

lemma Op.not_offSession {o : Op} (ho : o.writesSession = true) : ¬o.onSession = false := by
  cases o <;> simp_all [Op.writesSession, Op.onSession]

lemma smf_of_write {o : Op} (hI : Conduct d l o) (ho : o.writesSession = true) :
    ∃ h, d.header = some h ∧ isSmfRequest h.msgType = true := by
  obtain ⟨h, hd, hI⟩ := hI
  refine ⟨h, hd, (isSmfRequest_iff _).mpr ?_⟩
  cases o with
  | sessionInsert s u a =>
    obtain ⟨_, _, _, hest | ⟨hdef, _⟩⟩ := hI
    · exact .inr (.inl hest)
    · exact .inr (.inr (.inr (.inr hdef)))
  | sessionRemove s => exact .inr (.inr (.inr (.inl hI.2.1)))
  | _ => cases ho

lemma routesTo_of_write {o : Op} {k : o.Res → Handler Unit}
    (hp : Path (handleMessage d) l (.act o k)) (ho : o.writesSession = true) (r : o.Res) :
    ∃ s u, RoutesTo d (l ++ [⟨o, r⟩]) (.single u) ∧
      (o = .sessionInsert s u d.src ∧ AsksUpf d l s ∨ o = .sessionRemove s ∧ Deletes d s) := by
  obtain ⟨h, hd, hsmf⟩ := smf_of_write ((handleMessage_conduct d).path hp).1 ho
  rw [handleMessage_smf hd hsmf] at hp
  obtain ⟨_, l₁, l₂, rfl, hp₁, hp₂⟩ :=
    path_bind_act hp (recordMessageReceived_offSession h.msgType) (Op.not_offSession ho)
  obtain ⟨k', hp₂⟩ := path_bind_act_left hp₂
    (forwardRequest_offSession d.data d.src h.sequence) (Op.not_offSession ho)
  obtain ⟨s, u, hs, hk, hcase⟩ := routeMessage_write hsmf hp₂ ho
  refine ⟨s, u, ⟨h, l₁, l₂ ++ [⟨o, r⟩], hd, List.append_assoc .., hp₁, hk r ▸ hp₂.snoc r⟩, ?_⟩
  rcases hcase with ⟨hop, hest | ⟨hdef, st, hst⟩⟩ | ⟨hop, hdel⟩
  · exact .inl ⟨hop, h, hd, hs, .inl hest⟩
  · exact .inl ⟨hop, h, hd, hs, .inr ⟨hdef, st, List.mem_append_right _ hst⟩⟩
  · exact .inr ⟨hop, h, hd, hs, hdel⟩

lemma RoutesTo.ends {h : Header} {a b : Act Op.Res} (hr : RoutesTo d (l ++ [a]) (.single u))
    (hd : d.header = some h) (ht : isSmfRequest h.msgType = true)
    (hb : ∀ l', Path (routeMessage h.msgType h.seid d.src) l' (.done (.single u)) →
      (∀ st, ⟨.poolStrategy, st⟩ ∈ l → ⟨.poolStrategy, st⟩ ∈ l') → b ∈ l')
    (hw : b.op.writesSession = true) : a = b := by
  obtain ⟨h', l₁, l₂, hd', hl, hp₁, hp₂⟩ := hr
  obtain rfl : h = h' := by simpa [hd] using hd'
  have hstrategy (st : LoadBalancingStrategy) (hst : ⟨.poolStrategy, st⟩ ∈ l) :
      ⟨.poolStrategy, st⟩ ∈ l₂ := by
    have hmem : ⟨.poolStrategy, st⟩ ∈ l₁ ++ l₂ := hl ▸ List.mem_append_left _ hst
    rcases List.mem_append.mp hmem with hm | hm
    · cases hp₁ with | cons _ hp₁ =>
      cases hp₁ with | cons _ hp₁ =>
      obtain ⟨rfl, _⟩ := path_done_iff.mp hp₁
      simp at hm
    · exact hm
  obtain ⟨l', rfl⟩ := routeMessage_ends ht hp₂ (hb l₂ hp₂ hstrategy) hw
  rw [← List.append_assoc] at hl
  simpa using (List.append_inj' hl rfl).2

lemma RoutesTo.inserts {a : Act Op.Res} (hr : RoutesTo d (l ++ [a]) (.single u))
    (hask : AsksUpf d l s) : a = ⟨.sessionInsert s u d.src, ()⟩ := by
  obtain ⟨h, hd, hs, htype⟩ := hask
  have hsmf : isSmfRequest h.msgType = true := by
    rw [isSmfRequest_iff]
    rcases htype with hest | ⟨hdef, _⟩
    · exact .inr (.inl hest)
    · exact .inr (.inr (.inr (.inr hdef)))
  refine hr.ends hd hsmf (fun l' hp hst => ?_) rfl
  rw [hs] at hp
  rcases htype with hest | ⟨hdef, st, hmem⟩
  · rw [hest] at hp
    exact routeEstablishment_inserts hp
  · rw [routeMessage_of_default hdef] at hp
    exact routeDefault_inserts hp ⟨st, hst st hmem⟩

lemma RoutesTo.removes {a : Act Op.Res} (hr : RoutesTo d (l ++ [a]) (.single u))
    (hdel : Deletes d s) : a = ⟨.sessionRemove s, ()⟩ := by
  obtain ⟨h, hd, hs, htype⟩ := hdel
  have hsmf : isSmfRequest h.msgType = true := by rw [htype]; rfl
  refine hr.ends hd hsmf (fun l' hp _ => ?_) rfl
  rw [hs, htype] at hp
  exact routeAffinity_removes hp

end Requests

/-! ### The session table of a history -/

/-- What an entry of a history writes under the SEID. -/
def Event.sessionWrite (s : UInt64) :
    Event Op.Res Proxy Datagram Env → Option (Option (SocketAddr × SocketAddr))
  | .act _ ⟨.sessionInsert s' u a, _⟩ _ => if s' = s then some (some (u, a)) else none
  | .act _ ⟨.sessionRemove s', _⟩ _ => if s' = s then some none else none
  | _ => none

/-- What was written last under the SEID: the recorded UPF and SMF, unless it was removed or
never recorded. -/
def lastWritten (s : UInt64) (h : History) : Option (SocketAddr × SocketAddr) :=
  (h.reverse.findSome? (Event.sessionWrite s)).join

lemma lastWritten_snoc (s : UInt64) (h : History) (e : Event Op.Res Proxy Datagram Env) :
    lastWritten s (h ++ [e]) = ((Event.sessionWrite s e).getD (lastWritten s h)) := by
  simp only [lastWritten, List.reverse_append, List.reverse_singleton, List.singleton_append,
    List.findSome?_cons]
  cases Event.sessionWrite s e <;> rfl

lemma sessionWrite_of_ne {s : UInt64} {i : ℕ} {a : Act Op.Res} {pre : Proxy}
    (ha : a.op.sessionKey ≠ some s) : Event.sessionWrite s (.act i a pre) = none := by
  obtain ⟨o, r⟩ := a
  cases o with
  | sessionInsert s' u a =>
    have hs : s' ≠ s := fun h => ha (by rw [h]; rfl)
    simp [Event.sessionWrite, hs]
  | sessionRemove s' =>
    have hs : s' ≠ s := fun h => ha (by rw [h]; rfl)
    simp [Event.sessionWrite, hs]
  | _ => rfl

section Runs

variable {p₀ : Proxy} {h : History} {c : Config Op.Res Proxy Datagram} {s : UInt64}

/-- The session table holds what was written last. -/
theorem lookupFull_eq_lastWritten (hp₀ : p₀.sessionTable = Table.empty)
    (hr : Run proxy p₀ h c) : c.shared.sessionTable.lookupFull s = lastWritten s h := by
  induction hr with
  | nil => simp [hp₀, SessionTable.lookupFull, lastWritten]
  | @snoc h c c' e hr hs ih =>
    rw [lastWritten_snoc, ← ih]
    cases hs with
    | recv d => rfl
    | env e => simp [Event.sessionWrite, proxy]
    | act i d o k w hi =>
      by_cases ho : o.sessionKey = some s
      · cases o with
        | sessionInsert s' u a =>
          cases ho
          simp [Event.sessionWrite, proxy, exec, SessionTable.lookupFull_insert]
        | sessionRemove s' =>
          cases ho
          simp [Event.sessionWrite, proxy, exec, SessionTable.lookupFull_remove]
        | _ => cases ho
      · rw [sessionWrite_of_ne ho, Option.getD_none]
        exact exec_lookupFull_of_ne ho w c.shared

lemma RoutedBy.sessionWrite {x : History} {e : Event Op.Res Proxy Datagram Env} {i : ℕ}
    {d : Datagram} {u : SocketAddr} (hr : RoutedBy x e i d u) :
    (AsksUpf d (acts i x) s → Event.sessionWrite s e = some (some (u, d.src))) ∧
      (Deletes d s → Event.sessionWrite s e = some none) := by
  obtain ⟨b, pre, rfl, _, hroutes⟩ := hr
  constructor
  · intro hask
    rw [hroutes.inserts hask]
    simp [Event.sessionWrite]
  · intro hdel
    rw [hroutes.removes hdel]
    simp [Event.sessionWrite]

/-- Nothing is written under a SEID but by routing a request under it. -/
lemma routedBy_of_sessionWrite {x y : History} {e : Event Op.Res Proxy Datagram Env}
    {w : Option (SocketAddr × SocketAddr)} (hr : Run proxy p₀ (x ++ e :: y) c)
    (hw : Event.sessionWrite s e = some w) :
    ∃ i d u, RoutedBy x e i d u ∧
      (AsksUpf d (acts i x) s ∧ w = some (u, d.src) ∨ Deletes d s ∧ w = none) := by
  obtain ⟨c₁, c₂, hr₁, hs, _⟩ := hr.split
  cases hs with
  | recv d => cases hw
  | env e => cases hw
  | act i d o k ok hi =>
    have ho : o.sessionKey = some s := by
      by_contra hne
      rw [sessionWrite_of_ne hne] at hw
      cases hw
    have hwrites : o.writesSession = true := by
      cases o <;> first | rfl | cases ho
    have hp : Path (handleMessage d) (acts i x) (.act o k) := hr₁.path hi
    obtain ⟨s', u, hroutes, hcase⟩ := routesTo_of_write hp hwrites (exec o ok c₁.shared).1
    refine ⟨i, d, u, ⟨_, _, rfl, hr₁.recv_mem hi, hroutes⟩, ?_⟩
    rcases hcase with ⟨rfl, hask⟩ | ⟨rfl, hdel⟩
    · cases ho
      exact .inl ⟨hask, by simpa [Event.sessionWrite] using hw.symm⟩
    · cases ho
      exact .inr ⟨hdel, by simpa [Event.sessionWrite] using hw.symm⟩

/-- The session table in terms of requests. -/
theorem lastWritten_iff {u a : SocketAddr} (hr : Run proxy p₀ h c) :
    lastWritten s h = some (u, a) ↔ LastBalanced h s u a := by
  induction hr with
  | nil => simp [lastWritten, LastBalanced, not_since_nil]
  | @snoc h c c' e hr hs ih =>
    have hr' : Run proxy p₀ (h ++ e :: []) c' := hr.snoc hs
    rw [lastWritten_snoc, LastBalanced, since_snoc_iff]
    cases hw : Event.sessionWrite s e with
    | none =>
      have hno : ¬Balances s u a h e := by
        rintro ⟨i, d, hrouted, hask, _⟩
        rw [hrouted.sessionWrite.1 hask] at hw
        cases hw
      have hkeep : ¬Replaces s h e := by
        rintro ⟨i, d, v, hrouted, hask | hdel⟩
        · rw [hrouted.sessionWrite.1 hask] at hw
          cases hw
        · rw [hrouted.sessionWrite.2 hdel] at hw
          cases hw
      rw [Option.getD_none, ih]
      simp [LastBalanced, hno, hkeep]
    | some w =>
      obtain ⟨i, d, v, hrouted, hcase⟩ := routedBy_of_sessionWrite hr' hw
      have hnew : Replaces s h e := ⟨i, d, v, hrouted, hcase.imp And.left And.left⟩
      rw [Option.getD_some]
      constructor
      · rintro rfl
        rcases hcase with ⟨hask, heq⟩ | ⟨_, heq⟩
        · cases heq
          exact .inl ⟨i, d, hrouted, hask, rfl⟩
        · cases heq
      · rintro (⟨j, d', hrouted', hask, rfl⟩ | ⟨_, hkeep⟩)
        · rw [hrouted'.sessionWrite.1 hask] at hw
          exact (Option.some.inj hw).symm
        · exact absurd hnew hkeep

end Runs

end PfcpProxy
