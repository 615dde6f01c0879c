import PfcpProxy.Lib.Medium
import PfcpProxy.TestPrograms
import PfcpProxy.Origins

/-!
# The testbed

Any number of `test-smf` clients, the proxy and a `test-upf` at each backend, over a network that
may reorder, lose and double datagrams. The handlers of the proxy are interleaved with each other
and with the other programs.
-/

namespace PfcpProxy

open AtomicTasks

/-- The datagram an operation has put on the network: one whose send succeeded. -/
def transmission : Act Op.Res → Option (List UInt8 × SocketAddr)
  | ⟨.sendTo data dst, true⟩ => some (data, dst)
  | _ => none

def transmissions (hist : History) : List (List UInt8 × SocketAddr) :=
  (allActs hist).filterMap transmission

lemma transmissions_append (h₁ h₂ : History) :
    transmissions (h₁ ++ h₂) = transmissions h₁ ++ transmissions h₂ := by
  rw [transmissions, allActs_append, List.filterMap_append]
  rfl

lemma transmission_eq_some {a : Act Op.Res} {x : List UInt8 × SocketAddr} :
    transmission a = some x ↔ a = ⟨.sendTo x.1 x.2, true⟩ := by
  obtain ⟨o, res⟩ := a
  cases o with
  | sendTo data dst =>
    cases res with
    | true =>
      obtain ⟨data', dst'⟩ := x
      simp [transmission]
    | false => simp [transmission]
  | _ => simp [transmission]

lemma mem_transmissions {hist : History} {x : List UInt8 × SocketAddr} :
    x ∈ transmissions hist ↔ ∃ i, ⟨.sendTo x.1 x.2, true⟩ ∈ acts i hist := by
  simp only [transmissions, List.mem_filterMap, transmission_eq_some, exists_eq_right, allActs,
    mem_acts_iff]
  constructor
  · rintro ⟨e, he, ha⟩
    cases e with
    | act i a pre =>
      cases ha
      exact ⟨i, pre, he⟩
    | recv i d => cases ha
    | env e pre => cases ha
  · rintro ⟨i, pre, he⟩
    exact ⟨_, he, rfl⟩

/-- The proxy is started with backends at which a `test-upf` listens. A program that is reached at
an address may be bound to another one, such as the unspecified. -/
structure Testbed where
  codec : Codec
  upfs : List SocketAddr
  bound : SocketAddr → SocketAddr
  backends : List SocketAddr
  strategy : LoadBalancingStrategy
  backends_upfs : ∀ b ∈ backends, b ∈ upfs

namespace Testbed

/-- The state of the programs and of the network between them. `asked` lists the calls of the
clients with the headers of the requests they have sent. -/
structure State where
  hist : History
  proxy : Config Op.Res Proxy Datagram
  contexts : SocketAddr → TestSmf.TestContext
  asked : List (SocketAddr × Option Header)
  upfStats : SocketAddr → TestUpf.UpfStats
  toProxy : Medium Datagram
  fromProxy : Medium (List UInt8 × SocketAddr)

/-- The address the UPF at `u` puts into its responses. -/
def localIp (T : Testbed) (u : SocketAddr) : BitVec 32 := TestUpf.localIp (T.bound u)

/-- What a program at `src` sends, as it arrives at the proxy. -/
def datagram (K : Codec) (src : SocketAddr) (data : List UInt8) : Datagram :=
  ⟨data, src, K.parse data⟩

def start (T : Testbed) : State :=
  ⟨[], ⟨Proxy.new T.backends T.strategy, []⟩, fun _ => .new, [], fun _ => .new, .empty, .empty⟩

namespace State

/-- A client calls one of its functions. A send that fails is one whose datagram is lost. -/
def ask (s : State) (K : Codec) (a : SocketAddr) (call : TestSmf.Call) (body : K.Body) : State :=
  let sent := call.run K (s.contexts a)
  { s with
    contexts := Function.update s.contexts a sent.2
    asked := s.asked ++ [(a, sent.1)]
    toProxy := s.toProxy.send ↑(sent.1.toList.map fun h => datagram K a (K.marshal h body)) }

/-- The proxy makes a step. -/
def advance (s : State) (e : Event Op.Res Proxy Datagram Env)
    (c : Config Op.Res Proxy Datagram) : State :=
  { s with
    hist := s.hist ++ [e]
    proxy := c
    fromProxy := s.fromProxy.send ↑(transmissions [e]) }

/-- A datagram arrives at the proxy, which starts a handler for it. -/
def receive (s : State) (d : Datagram) (hd : d ∈ s.toProxy.underWay) : State :=
  { s.advance (.recv s.proxy.tasks.length d)
      ⟨s.proxy.shared, s.proxy.tasks ++ [⟨d, PfcpProxy.handleMessage d⟩]⟩ with
    toProxy := s.toProxy.deliver d hd }

/-- A datagram arrives at a UPF, which handles it. -/
def respond (s : State) (T : Testbed) (x : List UInt8 × SocketAddr)
    (hx : x ∈ s.fromProxy.underWay) (body : T.codec.Body) : State :=
  let handled := TestUpf.handleMessage T.codec (T.localIp x.2) x.1 body (s.upfStats x.2)
  { s with
    upfStats := Function.update s.upfStats x.2 handled.1
    fromProxy := s.fromProxy.deliver x hx
    toProxy := s.toProxy.send ↑(handled.2.toList.map (datagram T.codec x.2)) }

end State

/-- Steps of the proxy, whose control file names backends with a `test-upf` only. -/
def Permits (T : Testbed) : Event Op.Res Proxy Datagram Env → Prop
  | .recv _ _ => False
  | .act _ _ _ => True
  | .env (.addBackend a) _ => a ∈ T.upfs
  | .env _ _ => True

/-- One step of the programs or of the network. Clients are not where the UPFs are. -/
inductive Step (T : Testbed) : State → State → Prop
  | ask (s : State) (a : SocketAddr) (call : TestSmf.Call) (body : T.codec.Body)
    (ha : a ∉ T.upfs) : Step T s (s.ask T.codec a call body)
  | receive (s : State) (d : Datagram) (hd : d ∈ s.toProxy.underWay) : Step T s (s.receive d hd)
  | proxy (s : State) (e : Event Op.Res Proxy Datagram Env) (c : Config Op.Res Proxy Datagram)
    (hs : AtomicTasks.Step PfcpProxy.proxy s.proxy e c) (he : T.Permits e) :
    Step T s (s.advance e c)
  | respond (s : State) (x : List UInt8 × SocketAddr) (hx : x ∈ s.fromProxy.underWay)
    (body : T.codec.Body) (hu : x.2 ∈ T.upfs) : Step T s (s.respond T x hx body)
  | arrive (s : State) (x : List UInt8 × SocketAddr) (hx : x ∈ s.fromProxy.underWay)
    (hu : x.2 ∉ T.upfs) : Step T s { s with fromProxy := s.fromProxy.deliver x hx }
  | faultTo (s : State) (m : Medium Datagram) (hm : s.toProxy.Fault m) :
    Step T s { s with toProxy := m }
  | faultFrom (s : State) (m : Medium (List UInt8 × SocketAddr)) (hm : s.fromProxy.Fault m) :
    Step T s { s with fromProxy := m }

inductive Reach (T : Testbed) : State → Prop
  | start : Reach T T.start
  | step {s s' : State} (hr : Reach T s) (hs : Step T s s') : Reach T s'

variable {T : Testbed} {s s' : State}

/-! ### The accounts -/

/-- The number of calls the client has made. -/
def State.calls (s : State) (a : SocketAddr) : ℕ := s.asked.countP fun x => x.1 = a

/-- What holds of the programs and the network in every state: the proxy runs, receives what the
network delivers and transmits what the network is handed; the clients number their requests. -/
structure Sound (T : Testbed) (s : State) : Prop where
  run : Run PfcpProxy.proxy (Proxy.new T.backends T.strategy) s.hist s.proxy
  received : (((receptions s.hist).map Prod.snd : List Datagram) : Multiset Datagram) =
    s.toProxy.delivered
  transmitted : (transmissions s.hist : Multiset (List UInt8 × SocketAddr)) = s.fromProxy.sent
  parsed : ∀ d ∈ s.toProxy.sent, d.header = T.codec.parse d.data
  added : ∀ a pre, .env (.addBackend a) pre ∈ s.hist → a ∈ T.upfs
  clients : ∀ x ∈ s.asked, x.1 ∉ T.upfs
  contexts : ∀ a, (s.contexts a).sequence = UInt32.ofNat (s.calls a + 1)
  numbered : ∀ x y a h, s.asked = x ++ (a, some h) :: y →
    h.sequence = UInt32.ofNat (x.countP (fun z => z.1 = a) + 1)
  built : ∀ a h, (a, some h) ∈ s.asked →
    isSmfRequest h.msgType = true ∧ (h.sequence.toNat < 2 ^ 24 → h.Built)

lemma sound_start : Sound T T.start where
  run := .nil
  received := rfl
  transmitted := rfl
  parsed := fun d hd => absurd hd (Multiset.notMem_zero d)
  added := fun a pre he => absurd he List.not_mem_nil
  clients := fun x hx => absurd hx List.not_mem_nil
  contexts := fun _ => rfl
  numbered := fun x y a h hsplit => absurd hsplit (by simp [start])
  built := fun a h hm => absurd hm List.not_mem_nil

lemma Sound.ask (hs : Sound T s) {a : SocketAddr} (call : TestSmf.Call) (body : T.codec.Body)
    (ha : a ∉ T.upfs) : Sound T (s.ask T.codec a call body) where
  run := hs.run
  received := hs.received
  transmitted := hs.transmitted
  parsed := fun d hd => by
    rcases Multiset.mem_add.mp hd with hd | hd
    · exact hs.parsed d hd
    · obtain ⟨h, _, rfl⟩ := List.mem_map.mp (Multiset.mem_coe.mp hd)
      rfl
  added := hs.added
  clients := fun x hx => by
    rcases List.mem_append.mp hx with hx | hx
    · exact hs.clients x hx
    · exact List.mem_singleton.mp hx ▸ ha
  contexts := fun b => by
    have hcalls : (s.ask T.codec a call body).calls b = s.calls b + if a = b then 1 else 0 := by
      simp [State.ask, State.calls, List.countP_cons]
    rw [hcalls]
    by_cases hb : b = a
    · subst hb
      simp [State.ask, hs.contexts b]
    · have hab : a ≠ b := fun h => hb h.symm
      simp [State.ask, Function.update_of_ne hb, hab, hs.contexts b]
  numbered := fun x y b h hsplit => by
    rcases List.eq_nil_or_concat y with rfl | ⟨y, z, rfl⟩
    · obtain ⟨rfl, hlast⟩ := List.append_inj' hsplit rfl
      simp only [List.cons.injEq, Prod.mk.injEq, and_true] at hlast
      obtain ⟨rfl, hrun⟩ := hlast
      rw [(TestSmf.run_header hrun).1, hs.contexts]
      rfl
    · have hsplit' : s.asked ++ [(a, (call.run T.codec (s.contexts a)).1)] =
          (x ++ (b, some h) :: y) ++ [z] := by simpa [State.ask] using hsplit
      obtain ⟨hinit, _⟩ := List.append_inj' hsplit' rfl
      exact hs.numbered x y b h hinit
  built := fun b h hm => by
    rcases List.mem_append.mp hm with hm | hm
    · exact hs.built b h hm
    · rw [List.mem_singleton, Prod.mk.injEq] at hm
      exact (TestSmf.run_header hm.2.symm).2

lemma Sound.receive (hs : Sound T s) {d : Datagram} (hd : d ∈ s.toProxy.underWay) :
    Sound T (s.receive d hd) where
  run := hs.run.snoc (.recv s.proxy d)
  received := by
    change _ = s.toProxy.delivered + {d}
    rw [← hs.received, ← Multiset.coe_singleton, Multiset.coe_add]
    simp [State.receive, State.advance, receptions]
  transmitted := by
    change _ = s.fromProxy.sent + _
    rw [← hs.transmitted, Multiset.coe_add]
    exact congrArg _ (transmissions_append ..)
  parsed := hs.parsed
  added := fun a pre he => by
    rcases List.mem_append.mp he with he | he
    · exact hs.added a pre he
    · cases List.mem_singleton.mp he
  clients := hs.clients
  contexts := hs.contexts
  numbered := hs.numbered
  built := hs.built

lemma Sound.advance (hs : Sound T s) {e : Event Op.Res Proxy Datagram Env}
    {c : Config Op.Res Proxy Datagram} (hstep : AtomicTasks.Step PfcpProxy.proxy s.proxy e c)
    (he : T.Permits e) : Sound T (s.advance e c) where
  run := hs.run.snoc hstep
  received := by
    have hnone : receptions [e] = [] := by
      cases e with
      | recv i d => exact he.elim
      | act i a pre => rfl
      | env e pre => rfl
    rw [State.advance, receptions_append, hnone, List.append_nil]
    exact hs.received
  transmitted := by
    change _ = s.fromProxy.sent + _
    rw [← hs.transmitted, Multiset.coe_add]
    exact congrArg _ (transmissions_append ..)
  parsed := hs.parsed
  added := fun a pre hm => by
    rcases List.mem_append.mp hm with hm | hm
    · exact hs.added a pre hm
    · cases List.mem_singleton.mp hm
      exact he
  clients := hs.clients
  contexts := hs.contexts
  numbered := hs.numbered
  built := hs.built

lemma Sound.respond (hs : Sound T s) {x : List UInt8 × SocketAddr}
    (hx : x ∈ s.fromProxy.underWay) (body : T.codec.Body) :
    Sound T (s.respond T x hx body) where
  run := hs.run
  received := hs.received
  transmitted := hs.transmitted
  parsed := fun d hd => by
    rcases Multiset.mem_add.mp hd with hd | hd
    · exact hs.parsed d hd
    · obtain ⟨h, _, rfl⟩ := List.mem_map.mp (Multiset.mem_coe.mp hd)
      rfl
  added := hs.added
  clients := hs.clients
  contexts := hs.contexts
  numbered := hs.numbered
  built := hs.built

lemma Sound.step (hs : Sound T s) (hstep : Step T s s') : Sound T s' := by
  cases hstep with
  | ask a call body ha => exact hs.ask call body ha
  | receive d hd => exact hs.receive hd
  | proxy e c hstep he => exact hs.advance hstep he
  | respond x hx body hu => exact hs.respond hx body
  | arrive x hx hu => exact { hs with }
  | faultTo m hm =>
    exact { hs with
      received := by rw [hs.received, ← hm.delivered_eq]
      parsed := by rw [hm.sent_eq]; exact hs.parsed }
  | faultFrom m hm => exact { hs with transmitted := by rw [hs.transmitted, ← hm.sent_eq] }

theorem Reach.sound (hr : Reach T s) : Sound T s := by
  induction hr with
  | start => exact sound_start
  | step _ hstep ih => exact ih.step hstep

/-! ### Where datagrams come from -/

/-- The header of the response that `test-upf` makes to a datagram, with its source. -/
def response (T : Testbed) (x : List UInt8 × SocketAddr) : Option (SocketAddr × Header) :=
  ((T.codec.parse x.1).bind (TestUpf.responseTo T.codec (T.localIp x.2))).map
    fun h => (x.2, h)

/-- The requests of the clients. -/
def State.requests (s : State) : Multiset (SocketAddr × Header) :=
  ↑(s.asked.filterMap fun x => x.2.map fun h => (x.1, h))

/-- The responses to the datagrams the UPFs have received. -/
def State.responses (s : State) (T : Testbed) : Multiset (SocketAddr × Header) :=
  (s.fromProxy.delivered.filter fun x => x.2 ∈ T.upfs).filterMap T.response

/-- Each client has made fewer calls than there are sequence numbers. -/
def State.Few (s : State) : Prop := ∀ a, s.calls a < 2 ^ 24 - 1

lemma few_of_length (h : s.asked.length < 2 ^ 24 - 1) : s.Few := fun _ =>
  lt_of_le_of_lt List.countP_le_length h

/-- The datagram is the request of a client, or a response to the request of a client. -/
structure Genuine (T : Testbed) (asked : List (SocketAddr × Option Header)) (d : Datagram)
    (h : Header) : Prop where
  header : d.header = some h
  small : h.sequence.toNat < 2 ^ 24
  origin : (d.src, some h) ∈ asked ∨ d.src ∈ T.upfs ∧ ∃ b h₀, (b, some h₀) ∈ asked ∧
    TestUpf.responseTo T.codec (T.localIp d.src) h₀ = some h

/-- What is on the way to the proxy are the requests of the clients and the responses to them. -/
structure Accounted (T : Testbed) (s : State) : Prop where
  account : s.toProxy.sent.map (fun d => (d.src, d.header)) =
    (s.requests + s.responses T).map fun x => (x.1, some x.2)
  genuine : ∀ d ∈ s.toProxy.sent, ∃ h, Genuine T s.asked d h

lemma mem_requests {a : SocketAddr} {h : Header} : (a, h) ∈ s.requests ↔ (a, some h) ∈ s.asked := by
  simp only [State.requests, Multiset.mem_coe, List.mem_filterMap]
  constructor
  · rintro ⟨⟨b, o⟩, hm, ho⟩
    cases o with
    | none => cases ho
    | some h' =>
      cases ho
      exact hm
  · exact fun hm => ⟨_, hm, rfl⟩

lemma Genuine.append {asked : List (SocketAddr × Option Header)} {d : Datagram} {h : Header}
    (hg : Genuine T asked d h) (more : List (SocketAddr × Option Header)) :
    Genuine T (asked ++ more) d h where
  header := hg.header
  small := hg.small
  origin := by
    rcases hg.origin with hm | ⟨hu, b, h₀, hm, hresp⟩
    · exact .inl (List.mem_append_left _ hm)
    · exact .inr ⟨hu, b, h₀, List.mem_append_left _ hm, hresp⟩

lemma Genuine.mem_asked {asked : List (SocketAddr × Option Header)} {d : Datagram} {h : Header}
    (hg : Genuine T asked d h) (hreq : isRequest h.msgType = true) : (d.src, some h) ∈ asked := by
  rcases hg.origin with hask | ⟨_, _, _, _, hresp⟩
  · exact hask
  · rw [(TestUpf.responseTo_header hresp).2.1] at hreq
    cases hreq

lemma Sound.number_toNat (hs : Sound T s) (hfew : s.Few)
    {x y : List (SocketAddr × Option Header)} {a : SocketAddr} {h : Header}
    (hsplit : s.asked = x ++ (a, some h) :: y) :
    h.sequence.toNat = x.countP (fun z => z.1 = a) + 1 ∧ h.sequence.toNat < 2 ^ 24 := by
  have hcount : x.countP (fun z => z.1 = a) + 1 < 2 ^ 24 := by
    have hcalls : s.calls a = x.countP (fun z => z.1 = a) + (y.countP (fun z => z.1 = a) + 1) := by
      rw [State.calls, hsplit, List.countP_append, List.countP_cons_of_pos (by simp)]
    have hbound := hfew a
    omega
  rw [hs.numbered x y a h hsplit, UInt32.toNat_ofNat_of_lt' (hcount.trans (by decide))]
  exact ⟨rfl, hcount⟩

lemma Sound.small (hs : Sound T s) (hfew : s.Few) {a : SocketAddr} {h : Header}
    (hm : (a, some h) ∈ s.asked) : h.sequence.toNat < 2 ^ 24 := by
  obtain ⟨x, y, hsplit⟩ := List.append_of_mem hm
  exact (hs.number_toNat hfew hsplit).2

lemma Sound.numbers_ne (hs : Sound T s) (hfew : s.Few)
    {x y : List (SocketAddr × Option Header)} {a : SocketAddr} {h h' : Header}
    (hsplit : s.asked = x ++ (a, some h) :: y) (hm : (a, some h') ∈ x) :
    h'.sequence ≠ h.sequence := by
  intro heq
  obtain ⟨u, v, rfl⟩ := List.append_of_mem hm
  have hnumber := (hs.number_toNat hfew hsplit).1
  rw [List.append_assoc, List.cons_append] at hsplit
  have hnumber' := (hs.number_toNat hfew hsplit).1
  rw [List.countP_append, List.countP_cons_of_pos (by simp)] at hnumber
  rw [heq] at hnumber'
  omega

lemma Sound.request_unique (hs : Sound T s) (hfew : s.Few) {a : SocketAddr} {h h' : Header}
    (hm : (a, some h) ∈ s.asked) (hm' : (a, some h') ∈ s.asked)
    (hseq : h.sequence = h'.sequence) : h = h' := by
  obtain ⟨x, y, hsplit⟩ := List.append_of_mem hm
  rw [hsplit, List.mem_append, List.mem_cons] at hm'
  rcases hm' with hm' | heq | hm'
  · exact absurd hseq.symm (hs.numbers_ne hfew hsplit hm')
  · cases heq
    rfl
  · obtain ⟨u, v, rfl⟩ := List.append_of_mem hm'
    rw [← List.cons_append, ← List.append_assoc] at hsplit
    exact absurd hseq (hs.numbers_ne hfew hsplit (by simp))

lemma Sound.sent_of_received (hs : Sound T s) {i : ℕ} {d : Datagram}
    (hz : (i, d) ∈ receptions s.hist) : d ∈ s.toProxy.sent := by
  apply Medium.mem_sent_of_mem_delivered
  rw [← hs.received, Multiset.mem_coe, List.mem_map]
  exact ⟨(i, d), hz, rfl⟩

/-- What the proxy has put on the network are the bytes of a datagram it has received; those of a
request go to a UPF, those of a response to where a request with its number has come from. -/
lemma Sound.transmission (hs : Sound T s) {x : List UInt8 × SocketAddr}
    (hx : x ∈ s.fromProxy.sent) : ∃ d ∈ s.toProxy.sent, ∃ h, d.header = some h ∧ x.1 = d.data ∧
      (isSmfRequest h.msgType = true → x.2 ∈ T.upfs) ∧
      (isRequest h.msgType = false → ∃ d' ∈ s.toProxy.sent, ∃ h', d'.header = some h' ∧
        isRequest h'.msgType = true ∧ h'.sequence = h.sequence ∧ d'.src = x.2) := by
  have hreceived {i : ℕ} {d : Datagram} (hd : .recv i d ∈ s.hist) : d ∈ s.toProxy.sent :=
    hs.sent_of_received (mem_receptions_iff.mpr hd)
  rw [← hs.transmitted, Multiset.mem_coe, mem_transmissions] at hx
  obtain ⟨i, hsend⟩ := hx
  obtain ⟨y, pre, z, hsplit⟩ := exists_split_of_mem_acts hsend
  have hr := hs.run
  rw [hsplit] at hr
  obtain ⟨d, h, hd, hh, hdata, hw⟩ := warranted rfl rfl hr
  have hbefore {j : ℕ} {d' : Datagram} (hd' : .recv j d' ∈ y) : .recv j d' ∈ s.hist := by
    rw [hsplit]
    exact List.mem_append_left _ hd'
  refine ⟨d, hreceived (hbefore hd), h, hh, hdata, fun hsmf => ?_, fun hresp => ?_⟩
  · obtain ⟨v, w, rfl, hu⟩ := hw.request hsmf
    rw [← List.nil_append v] at hu
    rcases mem_pooled_append hu with hu | ⟨pre', he⟩
    · apply T.backends_upfs
      simpa [pooled, poolCalls, UpfPool.afterCalls, Proxy.new, UpfPool.addrs, UpfPool.new,
        UpfBackend.fresh] using hu
    · apply hs.added x.2 pre'
      rw [hsplit]
      exact List.mem_append_left _ (List.mem_append_left _ he)
  · obtain ⟨v, _, _, w, info, j, rfl, _, horigin, hfounds⟩ := hw.response hresp
    obtain ⟨d', h', hd', hh', hq, hsrc, hreq, _⟩ := hfounds.request
    have hd'' : d' ∈ s.toProxy.sent := hreceived (hbefore (List.mem_append_left _ hd'))
    exact ⟨d', hd'', h', hh', hreq, hq, hsrc.trans horigin⟩

lemma Accounted.genuine_of_mem (ha : Accounted T s) {d : Datagram} {h : Header}
    (hd : d ∈ s.toProxy.sent) (hh : d.header = some h) : Genuine T s.asked d h := by
  obtain ⟨h', hg⟩ := ha.genuine d hd
  have heq := hg.header
  rw [hh, Option.some.injEq] at heq
  exact heq ▸ hg

/-- What a UPF receives is the request of a client, or it is not responded to. -/
lemma Accounted.asked_of_response (ha : Accounted T s) (hs : Sound T s)
    {x : List UInt8 × SocketAddr} (hx : x ∈ s.fromProxy.sent) {h : Header}
    (hresp : T.response x = some (x.2, h)) : ∃ b h₀, (b, some h₀) ∈ s.asked ∧
      h₀.sequence.toNat < 2 ^ 24 ∧ T.codec.parse x.1 = some h₀ ∧
      TestUpf.responseTo T.codec (T.localIp x.2) h₀ = some h := by
  obtain ⟨d, hd, h₀, hh₀, hdata, _⟩ := hs.transmission hx
  have hparse : T.codec.parse x.1 = some h₀ := by rw [hdata, ← hs.parsed d hd, hh₀]
  have hto : TestUpf.responseTo T.codec (T.localIp x.2) h₀ = some h := by
    simpa [response, hparse] using hresp
  have hg := ha.genuine_of_mem hd hh₀
  exact ⟨d.src, h₀, hg.mem_asked (TestUpf.responseTo_header hto).2.2.1, hg.small, hparse, hto⟩

lemma accounted_start : Accounted T T.start where
  account := rfl
  genuine := fun d hd => absurd hd (Multiset.notMem_zero d)

lemma requests_ask (K : Codec) (a : SocketAddr) (call : TestSmf.Call) (body : K.Body) :
    (s.ask K a call body).requests =
      s.requests + ↑((call.run K (s.contexts a)).1.toList.map fun h => (a, h)) := by
  rw [State.requests, State.ask, List.filterMap_append, ← Multiset.coe_add]
  cases hrun : (call.run K (s.contexts a)).1 <;> simp [State.requests]

lemma responses_respond {x : List UInt8 × SocketAddr} (hx : x ∈ s.fromProxy.underWay)
    (body : T.codec.Body) (hu : x.2 ∈ T.upfs) : (s.respond T x hx body).responses T =
      s.responses T + ↑(T.response x).toList := by
  simp only [State.responses, State.respond, Medium.deliver, Multiset.filter_add,
    Multiset.filterMap_add, Multiset.filter_singleton, hu, if_true]
  cases hr : T.response x <;> simp [← Multiset.coe_singleton, hr]

lemma Accounted.ask (ha : Accounted T s) {a : SocketAddr} (call : TestSmf.Call)
    (body : T.codec.Body) (hs' : Sound T (s.ask T.codec a call body))
    (hfew : (s.ask T.codec a call body).Few) : Accounted T (s.ask T.codec a call body) := by
  have hparse (h : Header) (hrun : (call.run T.codec (s.contexts a)).1 = some h) :
      (a, some h) ∈ (s.ask T.codec a call body).asked ∧ h.sequence.toNat < 2 ^ 24 ∧
        T.codec.parse (T.codec.marshal h body) = some h := by
    have hm : (a, some h) ∈ (s.ask T.codec a call body).asked := by simp [State.ask, hrun]
    have hsmall := hs'.small hfew hm
    exact ⟨hm, hsmall, T.codec.parse_marshal h body ((hs'.built a h hm).2 hsmall)⟩
  constructor
  · change (s.toProxy.sent + _).map _ = (_ + s.responses T).map _
    rw [Multiset.map_add, ha.account, requests_ask, add_right_comm,
      Multiset.map_add _ (s.requests + s.responses T)]
    congr 1
    cases hrun : (call.run T.codec (s.contexts a)).1 with
    | none => rfl
    | some h =>
      obtain ⟨_, _, hmarshal⟩ := hparse h hrun
      simp [datagram, hmarshal]
  · intro d hd
    rcases Multiset.mem_add.mp hd with hd | hd
    · obtain ⟨h, hg⟩ := ha.genuine d hd
      exact ⟨h, hg.append _⟩
    · obtain ⟨h, hh, rfl⟩ := List.mem_map.mp (Multiset.mem_coe.mp hd)
      obtain ⟨hm, hsmall, hmarshal⟩ := hparse h (Option.mem_toList.mp hh)
      exact ⟨h, hmarshal, hsmall, .inl hm⟩

/-- The response that is sent parses to the header it was built with. -/
lemma Accounted.sent_response (ha : Accounted T s) (hs : Sound T s) {x : List UInt8 × SocketAddr}
    (hx : x ∈ s.fromProxy.sent) (body : T.codec.Body) (stats : TestUpf.UpfStats) :
    ((TestUpf.handleMessage T.codec (T.localIp x.2) x.1 body stats).2.toList.map
      (datagram T.codec x.2)) = (T.response x).toList.map fun y =>
        ⟨T.codec.marshal y.2 body, y.1, some y.2⟩ := by
  rw [TestUpf.handleMessage_response]
  cases hbind : (T.codec.parse x.1).bind (TestUpf.responseTo T.codec (T.localIp x.2)) with
  | none => simp [response, hbind]
  | some h =>
    have hresp : T.response x = some (x.2, h) := by simp [response, hbind]
    obtain ⟨b, h₀, _, hsmall, _, hto⟩ := ha.asked_of_response hs hx hresp
    have hmarshal := T.codec.parse_marshal h body ((TestUpf.responseTo_header hto).2.2.2 hsmall)
    simp [hresp, datagram, hmarshal]

lemma Accounted.respond (ha : Accounted T s) (hs : Sound T s) {x : List UInt8 × SocketAddr}
    (hx : x ∈ s.fromProxy.underWay) (body : T.codec.Body) (hu : x.2 ∈ T.upfs) :
    Accounted T (s.respond T x hx body) := by
  have hsent := Medium.mem_sent_of_mem_underWay hx
  have hsends : (s.respond T x hx body).toProxy.sent = s.toProxy.sent +
      ↑((T.response x).toList.map fun y =>
        (⟨T.codec.marshal y.2 body, y.1, some y.2⟩ : Datagram)) := by
    rw [← ha.sent_response hs hsent body (s.upfStats x.2)]
    rfl
  constructor
  · change _ = (s.requests + (s.respond T x hx body).responses T).map _
    rw [hsends, Multiset.map_add, ha.account, responses_respond hx body hu, ← add_assoc,
      Multiset.map_add _ (s.requests + s.responses T), Multiset.map_coe, Multiset.map_coe,
      List.map_map]
    rfl
  · intro d hd
    rw [hsends, Multiset.mem_add] at hd
    rcases hd with hd | hd
    · exact ha.genuine d hd
    · obtain ⟨y, hy, rfl⟩ := List.mem_map.mp (Multiset.mem_coe.mp hd)
      have hresp := Option.mem_toList.mp hy
      obtain ⟨h, hbind, rfl⟩ := Option.map_eq_some_iff.mp hresp
      obtain ⟨b, h₀, hm, hsmall, _, hto⟩ := ha.asked_of_response hs hsent hresp
      have hseq := (TestUpf.responseTo_header hto).1
      exact ⟨h, rfl, hseq ▸ hsmall, .inr ⟨hu, b, h₀, hm, hto⟩⟩

lemma few_of_step (hstep : Step T s s') (hfew : s'.Few) : s.Few := by
  intro b
  have hle : s.calls b ≤ s'.calls b := by
    cases hstep with
    | ask a call body ha => simp [State.calls, State.ask, List.countP_append]
    | _ => exact le_refl _
  exact lt_of_le_of_lt hle (hfew b)

/-- While the sequence numbers last, every datagram is accounted for. -/
theorem Reach.accounted (hr : Reach T s) (hfew : s.Few) : Accounted T s := by
  induction hr with
  | start => exact accounted_start
  | @step s s' hr hstep ih =>
    have ha := ih (few_of_step hstep hfew)
    have hs' := (hr.step hstep).sound
    cases hstep with
    | ask a call body _ => exact ha.ask call body hs' hfew
    | receive d hd => exact { ha with }
    | proxy e c hstep he => exact { ha with }
    | respond x hx body hu => exact ha.respond hr.sound hx body hu
    | arrive x hx hu =>
      have hsame : State.responses { s with fromProxy := s.fromProxy.deliver x hx } T =
          s.responses T := by
        simp [State.responses, Medium.deliver, Multiset.filter_add, Multiset.filter_singleton, hu]
      exact { ha with account := by rw [hsame]; exact ha.account }
    | faultTo m hm =>
      exact {
        account := by rw [hm.sent_eq]; exact ha.account
        genuine := by rw [hm.sent_eq]; exact ha.genuine }
    | faultFrom m hm =>
      have hsame : State.responses { s with fromProxy := m } T = s.responses T := by
        simp [State.responses, hm.delivered_eq]
      exact { ha with account := by rw [hsame]; exact ha.account }

/-! ### Schedules -/

/-- What may happen next, where the network delivers what it is handed. -/
inductive Move (T : Testbed)
  | ask (a : SocketAddr) (call : TestSmf.Call) (body : T.codec.Body)
  | receive (d : Datagram)
  | proceed (i : ℕ) (ok : Bool)
  | respond (x : List UInt8 × SocketAddr) (body : T.codec.Body)
  | arrive (x : List UInt8 × SocketAddr)

def next (s : State) : T.Move → Option State
  | .ask a call body => if a ∉ T.upfs then some (s.ask T.codec a call body) else none
  | .receive d => if hd : d ∈ s.toProxy.underWay then some (s.receive d hd) else none
  | .proceed i ok =>
    (AtomicTasks.next PfcpProxy.proxy s.proxy (.step i ok)).map fun x => s.advance x.1 x.2
  | .respond x body =>
    if hx : x ∈ s.fromProxy.underWay ∧ x.2 ∈ T.upfs then some (s.respond T x hx.1 body) else none
  | .arrive x =>
    if hx : x ∈ s.fromProxy.underWay ∧ x.2 ∉ T.upfs then
      some { s with fromProxy := s.fromProxy.deliver x hx.1 }
    else
      none

/-- Follow a schedule; what cannot happen is passed over. -/
def follow : List T.Move → State → State
  | [], s => s
  | m :: ms, s => follow ms ((next s m).getD s)

lemma next_step {m : T.Move} (hm : next s m = some s') : Step T s s' := by
  cases m with
  | ask a call body =>
    obtain ⟨ha, hs⟩ := Option.ite_none_right_eq_some.mp hm
    cases hs
    exact .ask s a call body ha
  | receive d =>
    obtain ⟨hd, hs⟩ := Option.dite_none_right_eq_some.mp hm
    cases hs
    exact .receive s d hd
  | proceed i ok =>
    obtain ⟨⟨e, c⟩, hn, rfl⟩ := Option.map_eq_some_iff.mp hm
    refine .proxy s e c (AtomicTasks.next_step hn) ?_
    simp only [AtomicTasks.next] at hn
    split at hn
    · cases hn
      trivial
    · cases hn
  | respond x body =>
    obtain ⟨hx, hs⟩ := Option.dite_none_right_eq_some.mp hm
    cases hs
    exact .respond s x hx.1 body hx.2
  | arrive x =>
    obtain ⟨hx, hs⟩ := Option.dite_none_right_eq_some.mp hm
    cases hs
    exact .arrive s x hx.1 hx.2

lemma follow_steps (ms : List T.Move) (s : State) :
    Relation.ReflTransGen (Step T) s (follow ms s) := by
  induction ms generalizing s with
  | nil => exact .refl
  | cons m ms ih =>
    rw [follow]
    cases hm : next s m with
    | none => exact ih s
    | some s' => exact .head (next_step hm) (ih s')

lemma Reach.steps (hr : Reach T s) (hsteps : Relation.ReflTransGen (Step T) s s') : Reach T s' := by
  induction hsteps with
  | refl => exact hr
  | tail _ hstep ih => exact ih.step hstep

lemma follow_reach (ms : List T.Move) (hr : Reach T s) : Reach T (follow ms s) :=
  hr.steps (follow_steps ms s)

/-! ### Agreement -/

/-- Clients receive nothing they have not asked for: however the programs are interleaved and
whatever the network does, a datagram that reaches a client is a UPF's response to a request with
the number of one of its own requests, and to that request itself unless it is another client's. -/
theorem solicited (hr : Reach T s) (hfew : s.Few) {x : List UInt8 × SocketAddr}
    (hx : x ∈ s.fromProxy.delivered) (hclient : x.2 ∉ T.upfs) :
    ∃ h h' u b h₀, (x.2, some h) ∈ s.asked ∧ T.codec.parse x.1 = some h' ∧ u ∈ T.upfs ∧
      (b, some h₀) ∈ s.asked ∧ TestUpf.responseTo T.codec (T.localIp u) h₀ = some h' ∧
      h₀.sequence = h.sequence ∧ (b = x.2 → h₀ = h) := by
  have hs := hr.sound
  have ha := hr.accounted hfew
  obtain ⟨d, hd, h', hh', hdata, hsmf, hresp⟩ :=
    hs.transmission (Medium.mem_sent_of_mem_delivered hx)
  rcases (ha.genuine_of_mem hd hh').origin with hask | ⟨hu, b, h₀, hm₀, hto⟩
  · -- a request goes to a UPF
    exact absurd (hsmf (hs.built _ _ hask).1) hclient
  obtain ⟨hseq, hnot, _⟩ := TestUpf.responseTo_header hto
  obtain ⟨d', hd', h, hh, hreq, hnumber, hsrc⟩ := hresp hnot
  have hm := (ha.genuine_of_mem hd' hh).mem_asked hreq
  rw [hsrc] at hm
  have hparse : T.codec.parse x.1 = some h' := by rw [hdata, ← hs.parsed d hd, hh']
  have hsame : h₀.sequence = h.sequence := by rw [hnumber, hseq]
  exact ⟨h, h', d.src, b, h₀, hm, hparse, hu, hm₀, hto, hsame,
    fun hb => hs.request_unique hfew (hb ▸ hm₀) hm hsame⟩

/-- A testbed of two UPFs. -/
def twoBackends : Testbed :=
  ⟨.plain, [upfX, upfY], id, [upfX, upfY], .roundRobin, fun _ => id⟩

/-- What the programs put into heartbeats: a recovery time stamp. -/
def heartbeatBody : List UInt8 := [0x00, 0x60, 0x00, 0x04, 0xea, 0x00, 0x00, 0x00]

/-- A node, an F-SEID, a rule to detect and one to forward packets. -/
def establishmentBody : List UInt8 :=
  [0x00, 0x3c, 0x00, 0x05, 0x00, 0x7f, 0x00, 0x00, 0x01,
    0x00, 0x39, 0x00, 0x0d, 0x02, 0x00, 0x00, 0x00, 0x00, 0x00, 0x00, 0x00, 0x07,
    0x7f, 0x00, 0x00, 0x01, 0x00, 0x01, 0x00, 0x03, 0x01, 0x00, 0x01,
    0x00, 0x03, 0x00, 0x03, 0x01, 0x00, 0x01]

/-- A cause and an F-SEID. -/
def acceptedBody : List UInt8 :=
  [0x00, 0x13, 0x00, 0x01, 0x01, 0x00, 0x39, 0x00, 0x0d, 0x02, 0x00, 0x00, 0x00, 0x00, 0x00,
    0x00, 0x00, 0x07, 0x0a, 0x01, 0x00, 0x01]

def heartbeat : List UInt8 := Codec.marshalHeader ⟨.heartbeatRequest, none, 1⟩ heartbeatBody
def alive : List UInt8 := Codec.marshalHeader ⟨.heartbeatResponse, none, 1⟩ heartbeatBody
def establishment : List UInt8 :=
  Codec.marshalHeader ⟨.sessionEstablishmentRequest, some 7, 2⟩ establishmentBody
def accepted : List UInt8 :=
  Codec.marshalHeader ⟨.sessionEstablishmentResponse, some 7, 2⟩ acceptedBody

/-- All operations of a handler, with sends that succeed. -/
def handled (i : ℕ) : List twoBackends.Move := List.replicate 20 (.proceed i true)

/-- A client asks for a heartbeat and a session, and everything is answered. -/
def answering : List twoBackends.Move :=
  .ask smfA .sendHeartbeat heartbeatBody ::
  .ask smfA (.establishSession 7) establishmentBody ::
  .receive (datagram .plain smfA heartbeat) :: handled 0 ++
  .respond (heartbeat, upfX) heartbeatBody ::
  .receive (datagram .plain smfA establishment) :: handled 1 ++
  .receive (datagram .plain upfX alive) :: handled 2 ++
  .respond (establishment, upfX) acceptedBody ::
  .respond (heartbeat, upfY) heartbeatBody ::
  .receive (datagram .plain upfY alive) ::
  .receive (datagram .plain upfX accepted) :: handled 3 ++ handled 4 ++
  [.arrive (alive, smfA), .arrive (accepted, smfA), .arrive (alive, smfA)]

def answered : State := follow answering twoBackends.start

lemma answered_reach : Reach twoBackends answered := follow_reach _ .start

lemma answered_few : answered.Few := few_of_length (by decide +kernel)

theorem solicited_accepted : ∃ h h' u b h₀, (smfA, some h) ∈ answered.asked ∧
    Codec.plain.parse accepted = some h' ∧ u ∈ twoBackends.upfs ∧ (b, some h₀) ∈ answered.asked ∧
    TestUpf.responseTo .plain (twoBackends.localIp u) h₀ = some h' ∧ h₀.sequence = h.sequence ∧
    (b = smfA → h₀ = h) :=
  solicited answered_reach answered_few (x := (accepted, smfA)) (by decide +kernel)
    (by decide +kernel)

end Testbed

end PfcpProxy
