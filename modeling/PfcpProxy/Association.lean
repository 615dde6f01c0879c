import PfcpProxy.Lib.Serialization
import PfcpProxy.Targets

/-!
# Associations

An association setup goes to the backends its handler has read, an establishment to a backend
its own handler has read. Between the two the pool can only gain an address by an addition.
A release takes the last arm of the routing match.
-/

namespace PfcpProxy

open AtomicTasks

/-- The datagram is of the message type `t`. -/
def Datagram.IsType (d : Datagram) (t : MsgType) : Prop := ∃ h, d.header = some h ∧ h.msgType = t

/-- Task `i` handles an association setup of the SMF `a`. -/
def SetUpBy (hist : History) (a : SocketAddr) (i : ℕ) (d : Datagram) : Prop :=
  .recv i d ∈ hist ∧ d.IsType .associationSetupRequest ∧ d.src = a

def AllSendsSucceed (hist : History) : Prop := ∀ i data u, ⟨.sendTo data u, false⟩ ∉ acts i hist

/-- Every establishment request comes after a setup of the same SMF. -/
def SetUpFirst (hist : History) : Prop :=
  ∀ x j d y, hist = x ++ .recv j d :: y → d.IsType .sessionEstablishmentRequest →
    ∃ i e, SetUpBy x d.src i e

/-- Every establishment request comes after the handler of a setup of the same SMF has
returned. -/
def SetUpHandledFirst (hist : History) : Prop :=
  ∀ x j d y, hist = x ++ .recv j d :: y → d.IsType .sessionEstablishmentRequest →
    ∃ i e, SetUpBy x d.src i e ∧ Path (handleMessage e) (acts i x) (.done ())

/-- Establishment requests are forwarded only where a setup of the same SMF was forwarded
before. -/
def EstablishedCovered (hist : History) : Prop :=
  ∀ x j d data u ok pre y, hist = x ++ .act j ⟨.sendTo data u, ok⟩ pre :: y → .recv j d ∈ x →
    d.IsType .sessionEstablishmentRequest →
      ∃ i e, SetUpBy x d.src i e ∧ ⟨.sendTo e.data u, true⟩ ∈ acts i x

/-- Since the handler `i` read all backends, `u` was added to the pool. -/
def AddedSince (hist : History) (i : ℕ) (u : SocketAddr) : Prop :=
  ∃ x bs pre y, hist = x ++ .act i ⟨.poolAllBackends, bs⟩ pre :: y ∧
    ∃ pre', .env (.addBackend u) pre' ∈ y

/-- Establishment requests are forwarded only where a setup of the same SMF was forwarded
before, or to an addition to the pool that the setup did not see. -/
def EstablishedCoveredUpToAdditions (hist : History) : Prop :=
  ∀ x j d data u ok pre y, hist = x ++ .act j ⟨.sendTo data u, ok⟩ pre :: y → .recv j d ∈ x →
    d.IsType .sessionEstablishmentRequest →
      ∃ i e, SetUpBy x d.src i e ∧ (⟨.sendTo e.data u, true⟩ ∈ acts i x ∨ AddedSince x i u)

/-- A release that was handled is forwarded to every pool backend that a setup of the same
SMF was forwarded to. -/
def ReleaseCovered (p₀ : Proxy) (hist : History) (c : Config Op.Res Proxy Datagram) : Prop :=
  ∀ k d i e u, .recv k d ∈ hist → d.IsType .associationReleaseRequest → Finished c k →
    SetUpBy hist d.src i e → ⟨.sendTo e.data u, true⟩ ∈ acts i hist → u ∈ pooled p₀ hist →
      ∃ ok, ⟨.sendTo d.data u, ok⟩ ∈ acts k hist

/-- A release that is forwarded at all is forwarded to every backend that a setup of the same
SMF was forwarded to. -/
def ForwardedReleaseCovered (hist : History) : Prop :=
  ∀ k d i e w u data, .recv k d ∈ hist → d.IsType .associationReleaseRequest →
    ⟨.sendTo data w, true⟩ ∈ acts k hist → SetUpBy hist d.src i e →
      ⟨.sendTo e.data u, true⟩ ∈ acts i hist → ⟨.sendTo d.data u, true⟩ ∈ acts k hist

/-! ### One handler -/

section Handlers

variable {d : Datagram} {l : Acts}

/-- The handler of a setup has sent it to every backend it has read. -/
lemma setup_sends (hd : d.IsType .associationSetupRequest)
    (hp : Path (handleMessage d) l (.done ())) :
    ∃ bs : List UpfBackend, ⟨.poolAllBackends, bs⟩ ∈ l ∧
      ∀ b ∈ bs, ∃ ok, ⟨.sendTo d.data b.addr, ok⟩ ∈ l := by
  obtain ⟨h, hh, ht⟩ := hd
  have hb : isBroadcastRequest h.msgType = true := by rw [ht]; rfl
  obtain ⟨bs, _, _, _, hl, _⟩ := broadcast_path hh hb hp
  have hread : ⟨.poolAllBackends, bs⟩ ∈ l := by simp [hl]
  refine ⟨bs, hread, fun b hmem => ?_⟩
  have hcopy : (d.data, b.addr) ∈ copies l := by
    rw [broadcast_copies hh hb hp hread]
    exact List.mem_map_of_mem hmem
  obtain ⟨⟨o, ok⟩, ha, hop⟩ := List.mem_filterMap.mp hcopy
  cases o with
  | sendTo data dst =>
    cases hop
    exact ⟨ok, ha⟩
  | _ => cases hop

lemma establishment_no_lookup (hd : d.IsType .sessionEstablishmentRequest) :
    Only (fun o => ∀ s, o ≠ .sessionLookup s) (handleMessage d) := by
  obtain ⟨h, hh, ht⟩ := hd
  have hsmf : isSmfRequest h.msgType = true := by rw [ht]; rfl
  have hroute : routeMessage h.msgType h.seid d.src = routeEstablishment h.seid d.src := by
    rw [ht]
    rfl
  have hselect : Only (fun o => ∀ s, o ≠ .sessionLookup s) selectUpf := by
    apply selectUpf_only.mono
    rintro o ho s rfl
    cases ho
  have hforward (dec : RoutingDecision) :
      Only (fun o => ∀ s, o ≠ .sessionLookup s) (forwardRequest d.data d.src h.sequence dec) := by
    apply (forwardRequest_only _ _ _ dec).mono
    rintro o ho s rfl
    cases ho
  rw [handleMessage_smf hh hsmf, hroute, routeEstablishment]
  refine only_bind ⟨by simp, fun _ => ⟨by simp, fun _ => trivial⟩⟩ fun _ => ?_
  refine only_bind (only_bind hselect fun r => ?_) hforward
  cases r with
  | none => trivial
  | some u =>
    refine ⟨by simp, fun _ => ⟨by simp, fun _ => ?_⟩⟩
    cases h.seid with
    | none => trivial
    | some s => exact ⟨by simp, fun _ => trivial⟩

end Handlers

/-! ### Runs -/

section Runs

variable {p₀ : Proxy} {hist h₁ h₂ : History} {c : Config Op.Res Proxy Datagram} {u : SocketAddr}

/-- The pool gains addresses by additions only. -/
lemma mem_pooled_append (hu : u ∈ pooled p₀ (h₁ ++ h₂)) :
    u ∈ pooled p₀ h₁ ∨ ∃ pre, .env (.addBackend u) pre ∈ h₂ := by
  induction h₂ using List.reverseRecOn with
  | nil => exact .inl (by simpa using hu)
  | append_singleton l e ih =>
    have hkeep (hu : u ∈ pooled p₀ (h₁ ++ l)) :
        u ∈ pooled p₀ h₁ ∨ ∃ pre, .env (.addBackend u) pre ∈ l ++ [e] :=
      (ih hu).imp id fun ⟨pre, he⟩ => ⟨pre, List.mem_append_left _ he⟩
    rw [← List.append_assoc, pooled, poolCalls_snoc, UpfPool.afterCalls, List.foldl_append] at hu
    cases e with
    | env e pre =>
      cases e with
      | addBackend a =>
        simp only [Event.poolCall, Option.toList_some, List.foldl_cons, List.foldl_nil,
          PoolCall.apply, UpfPool.addrs_addBackend] at hu
        split at hu
        · rw [List.mem_append, List.mem_singleton] at hu
          rcases hu with hu | rfl
          · exact hkeep hu
          · exact .inr ⟨pre, by simp⟩
        · exact hkeep hu
      | removeBackend a =>
        simp only [Event.poolCall, Option.toList_some, List.foldl_cons, List.foldl_nil,
          PoolCall.apply, UpfPool.addrs_removeBackend] at hu
        exact hkeep (List.mem_filter.mp hu).1
      | updateHealth a st =>
        simp only [Event.poolCall, Option.toList_some, List.foldl_cons, List.foldl_nil,
          PoolCall.apply, UpfPool.addrs_updateHealth] at hu
        exact hkeep hu
      | tick δ => exact hkeep hu
      | cleanupStale => exact hkeep hu
    | recv i d => exact hkeep hu
    | act i a pre => exact hkeep hu

/-- An establishment is sent to a backend its handler has read since it was received. -/
lemma establishment_offered {x y : History} {j : ℕ} {d : Datagram} {data : List UInt8} {ok : Bool}
    {pre : Proxy} (hr : Run proxy p₀ (x ++ .act j ⟨.sendTo data u, ok⟩ pre :: y) c)
    (hd : .recv j d ∈ x) (ht : d.IsType .sessionEstablishmentRequest) : Offered (acts j x) u := by
  obtain ⟨d', hd', htarget⟩ := hr.act_guarded handleMessage_targets
  obtain rfl := hr.recv_unique (List.mem_append_left _ hd) (List.mem_append_left _ hd')
  obtain ⟨c₁, hr₁⟩ := hr.of_append
  obtain ⟨p, _, hpath⟩ := hr₁.handler_path hd
  obtain ⟨h, hh, htype⟩ := ht
  rcases htarget h hh (by rw [htype]; rfl) with hoffered | ⟨s, hlook⟩
  · exact hoffered
  · exact absurd rfl (hpath.only (establishment_no_lookup ⟨h, hh, htype⟩) _ hlook s)

/-- What a handler was offered was in the pool at some time since its datagram was received. -/
lemma offered_since {x y : History} {j : ℕ} {d : Datagram}
    (hr : Run proxy p₀ (x ++ .recv j d :: y) c)
    (hu : Offered (acts j (x ++ .recv j d :: y)) u) :
    ∃ y₁ y₂, y = y₁ ++ y₂ ∧ u ∈ pooled p₀ (x ++ .recv j d :: y₁) := by
  have hnone := hr.acts_of_recv_new
  rw [acts_append, hnone, List.nil_append, acts_recv] at hu
  -- the pool as it was at the read
  have hread {bs : List UpfBackend} {o : Op} {res : o.Res} {b : UpfBackend} (hb : b ∈ bs)
      (hm : ⟨o, res⟩ ∈ acts j y)
      (hres : ∀ w p, res = (exec o w p).1 → bs ⊆ p.upfPool.backends) :
      ∃ y₁ y₂, y = y₁ ++ y₂ ∧ b.addr ∈ pooled p₀ (x ++ .recv j d :: y₁) := by
    obtain ⟨y₁, pre, y₂, rfl⟩ := exists_split_of_mem_acts hm
    rw [← List.cons_append, ← List.append_assoc] at hr
    obtain ⟨c₁, w, hr₁, rfl, hexec⟩ := act_exec hr
    refine ⟨y₁, _, rfl, ?_⟩
    rw [← run_addrs hr₁]
    exact List.mem_map_of_mem (hres w _ hexec hb)
  obtain ⟨bs, hm | hm, b, hb, rfl⟩ := hu
  · refine hread hb hm fun w p hres b hb => ?_
    rw [hres] at hb
    exact (List.mem_filter.mp hb).1
  · refine hread hb hm fun w p hres b hb => ?_
    rwa [hres] at hb

/-- Establishment requests that come after a handled setup go to backends the setup was
forwarded to, or to later additions. -/
theorem established_covered (hr : Run proxy p₀ hist c) (hsends : AllSendsSucceed hist)
    (hsetup : SetUpHandledFirst hist) : EstablishedCoveredUpToAdditions hist := by
  rintro x j d data u ok pre y rfl hd ht
  obtain ⟨x₁, x₂, rfl⟩ := List.append_of_mem hd
  obtain ⟨c₁, hr₁⟩ := hr.of_append
  obtain ⟨i, e, ⟨hrecv, hset, hsrc⟩, hpath⟩ := hsetup x₁ j d
    (x₂ ++ .act j ⟨.sendTo data u, ok⟩ pre :: y) (by simp) ht
  obtain ⟨bs, hread, hsent⟩ := setup_sends hset hpath
  obtain ⟨w, pre', z, rfl⟩ := exists_split_of_mem_acts hread
  obtain ⟨y₁, y₂, rfl, hu⟩ := offered_since hr₁ (establishment_offered hr hd ht)
  refine ⟨i, e, ⟨List.mem_append_left _ hrecv, hset, hsrc⟩, ?_⟩
  rw [List.append_assoc] at hu hr₁
  rcases mem_pooled_append hu with hseen | ⟨pre'', hadd⟩
  · -- the setup has read `u`
    obtain ⟨c₂, _, hr₂, rfl, hres⟩ := act_exec hr₁
    obtain rfl : bs = c₂.shared.upfPool.backends := hres
    rw [← run_addrs hr₂] at hseen
    obtain ⟨b, hb, rfl⟩ := List.mem_map.mp hseen
    obtain ⟨ok', hok⟩ := hsent b hb
    left
    rw [acts_append]
    apply List.mem_append_left
    cases ok' with
    | true => exact hok
    | false =>
      refine absurd ?_ (hsends i e.data b.addr)
      rw [List.append_assoc, acts_append]
      exact List.mem_append_left _ hok
  · right
    refine ⟨w, bs, pre', z ++ .recv j d :: (y₁ ++ y₂), by simp, pre'', ?_⟩
    simp only [List.cons_append, List.mem_cons, List.mem_append, reduceCtorEq, false_or] at hadd ⊢
    exact hadd.imp id fun h => .inl h

/-- A request of an SMF type is sent as it is, to an address its handler knows. -/
lemma request_sends {k : ℕ} {d : Datagram} {t : MsgType} {data : List UInt8} {ok : Bool}
    (hr : Run proxy p₀ hist c) (hd : .recv k d ∈ hist) (ht : d.IsType t)
    (hsmf : isSmfRequest t = true) (hsent : ⟨.sendTo data u, ok⟩ ∈ acts k hist) :
    data = d.data ∧ Known (acts k hist) u := by
  obtain ⟨x, pre, y, rfl⟩ := exists_split_of_mem_acts hsent
  obtain ⟨_, _, _, hdata, _⟩ := conduct_of_recv hr hd
  obtain ⟨d', hd', htarget⟩ := hr.act_guarded handleMessage_targets
  obtain rfl := hr.recv_unique hd (List.mem_append_left _ hd')
  obtain ⟨h, hh, rfl⟩ := ht
  rw [acts_append]
  exact ⟨hdata, (htarget h hh hsmf).append _⟩

/-- Where only one address is ever in the pool, a release goes where the setup went. -/
theorem release_covered (hp₀ : p₀.sessionTable = Table.empty) (hr : Run proxy p₀ hist c)
    {v : SocketAddr} (hpool : PoolWithin p₀ hist {v}) : ForwardedReleaseCovered hist := by
  rintro k d i e w u data hd ht hsent ⟨hrecv, hset, _⟩ hsetup
  obtain ⟨rfl, hknown⟩ := request_sends hr hd ht rfl hsent
  obtain ⟨_, hknown'⟩ := request_sends hr hrecv hset rfl hsetup
  have hw : w = v := Set.mem_singleton_iff.mp (known_within hp₀ hr hpool hknown)
  have hu : u = v := Set.mem_singleton_iff.mp (known_within hp₀ hr hpool hknown')
  rwa [hu, ← hw]

end Runs

/-- Association coverage: where every establishment request comes after the handler of a
setup of the same SMF has returned, it goes to a backend to which such a setup was forwarded
before, or which was added to the pool since. A release that is forwarded goes where the
setup went, if only one address is ever in the pool. -/
theorem association_coverage {backends : List SocketAddr} {strategy : LoadBalancingStrategy}
    {hist : History} {c : Config Op.Res Proxy Datagram}
    (hr : Run proxy (Proxy.new backends strategy) hist c) (hsends : AllSendsSucceed hist)
    (hsetup : SetUpHandledFirst hist) :
    EstablishedCoveredUpToAdditions hist ∧
      ∀ v, PoolWithin (Proxy.new backends strategy) hist {v} → ForwardedReleaseCovered hist :=
  ⟨established_covered hr hsends hsetup, fun _ hpool => release_covered rfl hr hpool⟩

/-! ### Concrete runs -/

def setupOfA : Datagram := message .associationSetupRequest none 1 smfA

def establishmentOfA : Datagram := message .sessionEstablishmentRequest (some 7) 2 smfA

def releaseOfA : Datagram := message .associationReleaseRequest none 3 smfA

/-- One backend, and each request handled in turn. -/
def associatedOnce : History × Config Op.Res Proxy Datagram :=
  played [upfX] .roundRobin (oneByOne 0 [setupOfA, establishmentOfA, releaseOfA])

/-- Between the setup and the establishment the backend is exchanged. -/
def exchangedBackend : History × Config Op.Res Proxy Datagram :=
  played [upfX] .roundRobin (oneByOne 0 [setupOfA] ++
    [.env (.addBackend upfY), .env (.removeBackend upfX)] ++ oneByOne 1 [establishmentOfA])

/-- The establishment overtakes the setup. -/
def overtakenSetup : History × Config Op.Res Proxy Datagram :=
  played [upfX] .roundRobin ([.recv setupOfA, .recv establishmentOfA] ++
    List.replicate 16 (.step 1 true) ++ List.replicate 16 (.step 0 true))

/-- Two backends, and a release after the setup. -/
def releasedOnce : History × Config Op.Res Proxy Datagram :=
  played [upfX, upfY] .roundRobin (oneByOne 0 [setupOfA, releaseOfA])

lemma allSendsSucceed_of_all {hist : History} (h : hist.all (fun e => !isFailedSend e) = true) :
    AllSendsSucceed hist :=
  fun _ _ _ => notMem_acts_of_all h fun _ => rfl

lemma setUpBy_of_receptions {hist : History} {i : ℕ} (h : (i, setupOfA) ∈ receptions hist) :
    SetUpBy hist smfA i setupOfA :=
  ⟨mem_receptions_iff.mp h, ⟨_, rfl, rfl⟩, rfl⟩

/-- The reception of task 1. -/
def isSecondReception : Event Op.Res Proxy Datagram Env → Bool
  | .recv 1 _ => true
  | _ => false

lemma setUpHandledFirst_of_second {hist : History} (n : ℕ)
    (hat : hist[n]? = some (.recv 1 establishmentOfA))
    (honly : ∀ j d, (j, d) ∈ receptions hist → d.IsType .sessionEstablishmentRequest → j = 1)
    (hbefore : (hist.take n).all (fun e => !isSecondReception e) = true)
    (hafter : (hist.drop (n + 1)).all (fun e => !isSecondReception e) = true)
    (hset : (0, setupOfA) ∈ receptions (hist.take n))
    (hacts : acts 0 (hist.take n) =
      (run exec (handleMessage setupOfA) (fun _ => true) (Proxy.new [upfX] .roundRobin)).acts) :
    SetUpHandledFirst hist := by
  intro x j d y hxy ht
  obtain ⟨hlt, hget⟩ := List.getElem?_eq_some_iff.mp hat
  have hsplit := (List.take_append_drop n hist).symm
  rw [List.drop_eq_getElem_cons hlt, hget] at hsplit
  obtain rfl := honly j d (mem_receptions_iff.mpr (by simp [hxy])) ht
  obtain ⟨rfl, he, _⟩ := split_unique (hxy.symm.trans hsplit) hbefore hafter rfl
  cases he
  refine ⟨0, setupOfA, setUpBy_of_receptions hset, ?_⟩
  rw [hacts]
  exact run_path exec (handleMessage setupOfA) (fun _ => true) _

theorem association_coverage_once :
    EstablishedCoveredUpToAdditions associatedOnce.1 ∧ ForwardedReleaseCovered associatedOnce.1 := by
  have hr : Run proxy (Proxy.new [upfX] .roundRobin) associatedOnce.1 associatedOnce.2 :=
    played_run _ _ _
  have hrecv : receptions associatedOnce.1 =
      [(0, setupOfA), (1, establishmentOfA), (2, releaseOfA)] := rfl
  have hsetup : SetUpHandledFirst associatedOnce.1 := by
    refine setUpHandledFirst_of_second 9 rfl ?_ (by decide +kernel) (by decide +kernel)
      (by decide +kernel) (by decide +kernel)
    intro j d hd ht
    rw [hrecv] at hd
    simp only [List.mem_cons, Prod.mk.injEq, List.not_mem_nil, or_false] at hd
    obtain ⟨h, hh, htype⟩ := ht
    rcases hd with ⟨_, rfl⟩ | ⟨rfl, _⟩ | ⟨_, rfl⟩
    · cases hh
      cases htype
    · rfl
    · cases hh
      cases htype
  have hpooled : ∀ n < associatedOnce.1.length + 1,
      pooled (Proxy.new [upfX] .roundRobin) (associatedOnce.1.take n) = [upfX] := by
    decide +kernel
  have hcovered := association_coverage hr (allSendsSucceed_of_all (by decide +kernel)) hsetup
  refine ⟨hcovered.1, hcovered.2 upfX ?_⟩
  intro x y hxy u hu
  rw [pooled_of_take hpooled hxy] at hu
  simpa using hu

lemma not_establishedCovered {hist : History} {u : SocketAddr} (n : ℕ)
    (hat : actAt hist n = some (1, ⟨.sendTo establishmentOfA.data u, true⟩))
    (hrecv : receptions hist = [(0, setupOfA), (1, establishmentOfA)])
    (hest : (1, establishmentOfA) ∈ receptions (hist.take n))
    (hnot : ⟨.sendTo setupOfA.data u, true⟩ ∉ acts 0 (hist.take n)) :
    ¬EstablishedCovered hist := by
  intro h
  obtain ⟨pre, hsplit⟩ := split_at hat
  obtain ⟨i, e, ⟨hi, ⟨h, hh, htype⟩, _⟩, hsent⟩ := h _ 1 establishmentOfA _ u true pre _ hsplit
    (mem_receptions_iff.mp hest) ⟨_, rfl, rfl⟩
  have hmem : (i, e) ∈ receptions hist := by
    rw [mem_receptions_iff, ← List.take_append_drop n hist]
    exact List.mem_append_left _ hi
  rw [hrecv] at hmem
  simp only [List.mem_cons, Prod.mk.injEq, List.not_mem_nil, or_false] at hmem
  rcases hmem with ⟨rfl, rfl⟩ | ⟨_, rfl⟩
  · exact hnot hsent
  · cases hh
    cases htype

lemma exchangedBackend_not_covered :
    SetUpHandledFirst exchangedBackend.1 ∧ ¬EstablishedCovered exchangedBackend.1 := by
  have hrecv : receptions exchangedBackend.1 = [(0, setupOfA), (1, establishmentOfA)] := rfl
  constructor
  · refine setUpHandledFirst_of_second 11 rfl ?_ (by decide +kernel) (by decide +kernel)
      (by decide +kernel) (by decide +kernel)
    intro j d hd ht
    rw [hrecv] at hd
    simp only [List.mem_cons, Prod.mk.injEq, List.not_mem_nil, or_false] at hd
    obtain ⟨h, hh, htype⟩ := ht
    rcases hd with ⟨_, rfl⟩ | ⟨rfl, _⟩
    · cases hh
      cases htype
    · rfl
  · exact not_establishedCovered (u := upfY) 21 (by decide +kernel) hrecv (by decide +kernel)
      (by decide +kernel)

lemma overtakenSetup_not_covered :
    SetUpFirst overtakenSetup.1 ∧ ¬EstablishedCovered overtakenSetup.1 := by
  have hrecv : receptions overtakenSetup.1 = [(0, setupOfA), (1, establishmentOfA)] := rfl
  constructor
  · intro x j d y hxy ht
    have hd : (j, d) ∈ receptions overtakenSetup.1 := mem_receptions_iff.mpr (by simp [hxy])
    rw [hrecv] at hd
    simp only [List.mem_cons, Prod.mk.injEq, List.not_mem_nil, or_false] at hd
    rcases hd with ⟨_, rfl⟩ | ⟨rfl, rfl⟩
    · obtain ⟨h, hh, htype⟩ := ht
      cases hh
      cases htype
    · have hsplit : overtakenSetup.1 = [.recv 0 setupOfA] ++ .recv 1 establishmentOfA ::
          overtakenSetup.1.drop 2 := rfl
      obtain ⟨rfl, _⟩ := split_unique (hxy.symm.trans hsplit) (P := isSecondReception) rfl
        (by decide +kernel) rfl
      exact ⟨0, setupOfA, setUpBy_of_receptions (by simp [receptions])⟩
  · exact not_establishedCovered (u := upfX) 11 (by decide +kernel) hrecv (by decide +kernel)
      (by decide +kernel)

lemma releasedOnce_not_covered :
    SetUpHandledFirst releasedOnce.1 ∧
      ¬ReleaseCovered (Proxy.new [upfX, upfY] .roundRobin) releasedOnce.1 releasedOnce.2 := by
  have hrecv : receptions releasedOnce.1 = [(0, setupOfA), (1, releaseOfA)] := rfl
  constructor
  · rintro x j d y hxy ⟨h, hh, htype⟩
    have hd : (j, d) ∈ receptions releasedOnce.1 := mem_receptions_iff.mpr (by simp [hxy])
    rw [hrecv] at hd
    simp only [List.mem_cons, Prod.mk.injEq, List.not_mem_nil, or_false] at hd
    rcases hd with ⟨_, rfl⟩ | ⟨_, rfl⟩
    · cases hh
      cases htype
    · cases hh
      cases htype
  · intro h
    have hrelease : .recv 1 releaseOfA ∈ releasedOnce.1 := mem_receptions_iff.mp (by simp [hrecv])
    have hsent : ⟨.sendTo setupOfA.data upfY, true⟩ ∈ acts 0 releasedOnce.1 := by decide +kernel
    have hpool : upfY ∈ pooled (Proxy.new [upfX, upfY] .roundRobin) releasedOnce.1 := by
      decide +kernel
    have hnot (ok : Bool) : ⟨.sendTo releaseOfA.data upfY, ok⟩ ∉ acts 1 releasedOnce.1 := by
      cases ok <;> decide +kernel
    obtain ⟨ok, hok⟩ := h 1 releaseOfA 0 setupOfA upfY hrelease ⟨_, rfl, rfl⟩ ⟨releaseOfA, by rfl⟩
      (setUpBy_of_receptions (by simp [hrecv])) hsent hpool
    exact hnot ok hok

/-- Events around the handlers. -/
def isEnv : Event Op.Res Proxy Datagram Env → Bool
  | .env _ _ => true
  | _ => false

lemma not_env_of_all {hist : History} (h : hist.all (fun e => !isEnv e) = true) (e : Env)
    (pre : Proxy) : .env e pre ∉ hist :=
  fun hm => by simpa [isEnv] using List.all_eq_true.mp h _ hm

/-- A backend that joins after the setup, a setup that is overtaken, and a release to one of
two backends: each of them breaks the coverage. -/
theorem association_coverage_fails :
    (¬∀ (backends : List SocketAddr) (strategy : LoadBalancingStrategy) (hist : History)
      (c : Config Op.Res Proxy Datagram), Run proxy (Proxy.new backends strategy) hist c →
      AllSendsSucceed hist → SetUpHandledFirst hist → EstablishedCovered hist) ∧
    (¬∀ (backends : List SocketAddr) (strategy : LoadBalancingStrategy) (hist : History)
      (c : Config Op.Res Proxy Datagram), Run proxy (Proxy.new backends strategy) hist c →
      (∀ e pre, .env e pre ∉ hist) → AllSendsSucceed hist → SetUpFirst hist →
      EstablishedCovered hist) ∧
    (¬∀ (backends : List SocketAddr) (strategy : LoadBalancingStrategy) (hist : History)
      (c : Config Op.Res Proxy Datagram), Run proxy (Proxy.new backends strategy) hist c →
      (∀ e pre, .env e pre ∉ hist) → AllSendsSucceed hist → SetUpHandledFirst hist →
      ReleaseCovered (Proxy.new backends strategy) hist c) := by
  refine ⟨fun h => ?_, fun h => ?_, fun h => ?_⟩
  · exact exchangedBackend_not_covered.2 (h [upfX] .roundRobin _ _ (played_run _ _ _)
      (allSendsSucceed_of_all (by decide +kernel)) exchangedBackend_not_covered.1)
  · exact overtakenSetup_not_covered.2 (h [upfX] .roundRobin _ _ (played_run _ _ _)
      (not_env_of_all (by decide +kernel)) (allSendsSucceed_of_all (by decide +kernel))
      overtakenSetup_not_covered.1)
  · exact releasedOnce_not_covered.2 (h [upfX, upfY] .roundRobin _ _ (played_run _ _ _)
      (not_env_of_all (by decide +kernel)) (allSendsSucceed_of_all (by decide +kernel))
      releasedOnce_not_covered.1)

end PfcpProxy
