import PfcpProxy.UpfStatus

/-!
# Starting the proxy

`run_proxy` reads the backends and the strategy off the command line. What a proxy exports about its
backends can be given to another one, which then starts with the same pool.
-/

namespace PfcpProxy

open AtomicTasks

/-- The arguments that decide what the proxy starts with. -/
structure Args where
  backends : List (List Char)
  strategy : List Char

/-- The values of a `--backends` flag, which are separated by commas. -/
def Args.backendsOf (flag : List Char) : List (List Char) := flag.splitOn ','

/-- The errors on which the proxy exits. -/
inductive StartError
  | unresolved (hostname : List Char)
  | lookupFailed (hostname error : List Char)
  | noBackends
  | invalidStrategy (strategy : List Char)

def StartError.message : StartError → List Char
  | .unresolved hostname => "Failed to resolve hostname: ".toList ++ hostname
  | .lookupFailed hostname error =>
    "Failed to resolve ".toList ++ hostname ++ ": ".toList ++ error
  | .noBackends => "No backend UPF addresses specified".toList
  | .invalidStrategy strategy => "Invalid strategy: ".toList ++ strategy

/-- Names are looked up where a text is no address. -/
def resolveBackend (lookupHost : List Char → Except (List Char) (List SocketAddr))
    (backend : List Char) : Except StartError SocketAddr :=
  match parseSocketAddr backend with
  | some addr => .ok addr
  | none =>
    match lookupHost backend with
    | .ok (addr :: _) => .ok addr
    | .ok [] => .error (.unresolved backend)
    | .error e => .error (.lookupFailed backend e)

def parseStrategy (strategy : List Char) : Except StartError LoadBalancingStrategy :=
  if strategy = "round-robin".toList then .ok .roundRobin
  else if strategy = "least-sessions".toList then .ok .leastSessions
  else if strategy = "weighted".toList then .ok .weighted
  else .error (.invalidStrategy strategy)

/-- The state the proxy starts with. -/
def runProxy (lookupHost : List Char → Except (List Char) (List SocketAddr)) (args : Args) :
    Except StartError Proxy := do
  let backends ← args.backends.mapM (resolveBackend lookupHost)
  if backends = [] then
    throw .noBackends
  let strategy ← parseStrategy args.strategy
  pure (Proxy.new backends strategy)

section Start

variable {lookupHost : List Char → Except (List Char) (List SocketAddr)} {args : Args} {p : Proxy}

lemma bind_eq_ok {ε α β : Type} {x : Except ε α} {f : α → Except ε β} {b : β} :
    x >>= f = .ok b ↔ ∃ a, x = .ok a ∧ f a = .ok b := by
  cases x with
  | error e =>
    constructor
    · intro h
      cases h
    · rintro ⟨a, ha, _⟩
      cases ha
  | ok a =>
    constructor
    · intro h
      exact ⟨a, rfl, h⟩
    · rintro ⟨a', ha, h⟩
      cases ha
      exact h

/-- All backends are resolved, in the order in which they are given. -/
lemma mapM_resolveBackend {texts : List (List Char)} {backends : List SocketAddr} :
    texts.mapM (resolveBackend lookupHost) = .ok backends ↔
      List.Forall₂ (fun text a => resolveBackend lookupHost text = .ok a) texts backends := by
  induction texts generalizing backends with
  | nil =>
    rw [List.mapM_nil, List.forall₂_nil_left_iff]
    constructor
    · intro h
      cases h
      rfl
    · rintro rfl
      rfl
  | cons text texts ih =>
    rw [List.mapM_cons, List.forall₂_cons_left_iff]
    constructor
    · intro h
      obtain ⟨a, ha, h⟩ := bind_eq_ok.mp h
      obtain ⟨as, has, h⟩ := bind_eq_ok.mp h
      cases h
      exact ⟨a, as, ha, ih.mp has, rfl⟩
    · rintro ⟨a, as, ha, has, rfl⟩
      exact bind_eq_ok.mpr ⟨a, ha, bind_eq_ok.mpr ⟨as, ih.mpr has, rfl⟩⟩

lemma runProxy_eq_ok : runProxy lookupHost args = .ok p ↔ ∃ backends strategy,
    List.Forall₂ (fun text a => resolveBackend lookupHost text = .ok a) args.backends backends ∧
      backends ≠ [] ∧ parseStrategy args.strategy = .ok strategy ∧
      p = Proxy.new backends strategy := by
  rw [runProxy, bind_eq_ok]
  constructor
  · rintro ⟨backends, hbackends, h⟩
    by_cases hnil : backends = []
    · rw [if_pos hnil] at h
      cases h
    · rw [if_neg hnil] at h
      obtain ⟨strategy, hstrategy, h⟩ := bind_eq_ok.mp h
      cases h
      exact ⟨backends, strategy, mapM_resolveBackend.mp hbackends, hnil, hstrategy, rfl⟩
  · rintro ⟨backends, strategy, hbackends, hnil, hstrategy, rfl⟩
    refine ⟨backends, mapM_resolveBackend.mpr hbackends, ?_⟩
    rw [if_neg hnil]
    exact bind_eq_ok.mpr ⟨strategy, hstrategy, rfl⟩

lemma resolveBackend_eq_ok {text : List Char} {a : SocketAddr}
    (h : resolveBackend lookupHost text = .ok a) :
    parseSocketAddr text = some a ∨ ∃ addrs, lookupHost text = .ok addrs ∧ a ∈ addrs := by
  unfold resolveBackend at h
  split at h
  next addr hparse =>
    cases h
    exact .inl hparse
  next =>
    split at h
    next addr addrs hlookup =>
      cases h
      exact .inr ⟨_, hlookup, List.mem_cons_self⟩
    next => cases h
    next => cases h

end Start

open Manager in
/-- The manager starts the proxy with the UPFs it has at first. -/
example (lookupHost : List Char → Except (List Char) (List SocketAddr)) :
    (runProxy lookupHost ⟨Args.backendsOf (commaSeparated [upf1Addr, upf2Addr, upf3Addr]),
      "round-robin".toList⟩).map Proxy.upfPool = .ok startedPool := rfl

section Runs

variable {lookupHost : List Char → Except (List Char) (List SocketAddr)} {args : Args}
  {p₀ : Proxy} {hist : History} {c : Config Op.Res Proxy Datagram}

/-- All addresses in the pool are printed as a whole: a flow information is neither read nor looked
up. -/
lemma printed_of_run (hstart : runProxy lookupHost args = .ok p₀)
    (hlookup : ∀ text addrs, lookupHost text = .ok addrs → ∀ a ∈ addrs, a.printed = a)
    (hr : Run proxy p₀ hist c)
    (hadded : ∀ a pre, .env (.addBackend a) pre ∈ hist → ∃ text, parseSocketAddr text = some a)
    {a : SocketAddr} (ha : a ∈ c.shared.upfPool.addrs) : a.printed = a := by
  obtain ⟨backends, strategy, hbackends, -, -, rfl⟩ := runProxy_eq_ok.mp hstart
  rw [run_addrs hr, ← List.nil_append hist] at ha
  rcases mem_pooled_append ha with ha | ⟨pre, ha⟩
  · have hmem : a ∈ backends := by
      simpa [pooled, poolCalls, UpfPool.afterCalls, Proxy.new, UpfPool.addrs_new] using ha
    obtain ⟨i, hi, rfl⟩ := List.mem_iff_getElem.mp hmem
    have hresolved := (List.forall₂_iff_get.mp hbackends).2 i (by
      rw [hbackends.length_eq]; exact hi) hi
    rcases resolveBackend_eq_ok hresolved with hparse | ⟨addrs, hok, hmem⟩
    · exact printed_of_parse hparse
    · exact hlookup _ addrs hok _ hmem
  · obtain ⟨text, htext⟩ := hadded a pre ha
    exact printed_of_parse htext

lemma backendsOf_intercalate {addrs : List SocketAddr} (hne : addrs ≠ [])
    (hprinted : ∀ a ∈ addrs, a.printed = a) :
    List.Forall₂ (fun text a => resolveBackend lookupHost text = .ok a)
      (Args.backendsOf ([','].intercalate (addrs.map displaySocketAddr))) addrs := by
  have hcomma : ∀ text ∈ addrs.map displaySocketAddr, ',' ∉ text := by
    rintro text htext hmem
    obtain ⟨a, -, rfl⟩ := List.mem_map.mp htext
    have hchar := isAddressChar_of_parse (parseSocketAddr_display a) ',' hmem
    revert hchar
    decide
  rw [Args.backendsOf, List.splitOn_intercalate ',' hcomma (by simpa using hne),
    List.forall₂_map_left_iff, List.forall₂_same]
  intro a ha
  rw [resolveBackend, parseSocketAddr_display, hprinted a ha]

/-- What is exported is enough to start again: in every state of a run in which the pool is not
empty, the exported addresses, given to another proxy as its backends, make it start with a pool of
the same backends in the same order, and without looking a name up. -/
theorem restarted (hstart : runProxy lookupHost args = .ok p₀)
    (hlookup : ∀ text addrs, lookupHost text = .ok addrs → ∀ a ∈ addrs, a.printed = a)
    (hr : Run proxy p₀ hist c)
    (hadded : ∀ a pre, .env (.addBackend a) pre ∈ hist → ∃ text, parseSocketAddr text = some a)
    (hne : c.shared.upfPool.addrs ≠ [])
    (lookupHost' : List Char → Except (List Char) (List SocketAddr)) :
    runProxy lookupHost' ⟨Args.backendsOf ([','].intercalate
      (c.shared.exportedUpfs.map (·.address))), args.strategy⟩ =
        .ok (Proxy.new c.shared.upfPool.addrs c.shared.upfPool.strategy) := by
  have hexported : c.shared.exportedUpfs.map (·.address) =
      c.shared.upfPool.addrs.map displaySocketAddr := by
    simp only [Proxy.exportedUpfs, Proxy.report, Statistics.createSnapshot, UpfPool.addrs,
      List.map_map]
    rfl
  have hprinted : ∀ a ∈ c.shared.upfPool.addrs, a.printed = a := fun a ha =>
    printed_of_run hstart hlookup hr hadded ha
  have hstrategy := run_strategy hr
  obtain ⟨_, strategy, -, -, hparse, rfl⟩ := runProxy_eq_ok.mp hstart
  rw [hexported, runProxy_eq_ok]
  exact ⟨_, strategy, backendsOf_intercalate hne hprinted, hne, hparse, by rw [hstrategy]; rfl⟩

end Runs

/-- An IPv6 backend is added to an IPv4 one. -/
def withIpv6 : History × Config Op.Res Proxy Datagram :=
  played [upfX] .roundRobin [.env (.addBackend (.v6 0x20010db8 8805 0 0))]

theorem restarted_ipv6 :
    runProxy (fun _ => .error []) ⟨Args.backendsOf ([','].intercalate
      (withIpv6.2.shared.exportedUpfs.map (·.address))), "round-robin".toList⟩ =
        .ok (Proxy.new [upfX, .v6 0x20010db8 8805 0 0] .roundRobin) := by
  have hstart : runProxy (fun _ => .ok []) ⟨[displaySocketAddr upfX], "round-robin".toList⟩ =
      .ok (Proxy.new [upfX] .roundRobin) := by
    refine runProxy_eq_ok.mpr ⟨[upfX], .roundRobin, .cons ?_ .nil, by simp, rfl, rfl⟩
    rw [resolveBackend, parseSocketAddr_display]
    rfl
  have hpool : withIpv6.2.shared.upfPool.addrs = [upfX, .v6 0x20010db8 8805 0 0] := by
    decide +kernel
  have hr : Run proxy (Proxy.new [upfX] .roundRobin) withIpv6.1 withIpv6.2 := played_run _ _ _
  refine (restarted hstart ?_ hr ?_ ?_ _).trans (by rw [hpool, run_strategy hr]; rfl)
  · intro text addrs hlookup a ha
    cases hlookup
    cases ha
  · intro a pre ha
    have hhist : withIpv6.1 =
      [.env (.addBackend (.v6 0x20010db8 8805 0 0)) (Proxy.new [upfX] .roundRobin)] := rfl
    rw [hhist, List.mem_singleton] at ha
    cases ha
    exact ⟨_, parseSocketAddr_display (.v6 0x20010db8 8805 0 0)⟩
  · rw [hpool]
    simp

end PfcpProxy
