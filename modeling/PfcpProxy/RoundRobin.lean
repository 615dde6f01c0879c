import PfcpProxy.Lib.Rounds
import PfcpProxy.PoolInvariant
import PfcpProxy.Sequential

/-!
# Evenness of round robin

Every selection takes the next value of one index, whichever arm of the routing match it is
made in. How evenly sessions are spread therefore depends on how many selections for other
requests fall between the establishment requests of a round.
-/

namespace PfcpProxy

open AtomicTasks

/-! ### Which requests select -/

/-- What a request selects a backend for: a session (`true`), or itself alone. Other requests
select none. -/
def Header.selects (h : Header) (p : Proxy) : Option Bool :=
  if h.msgType = .sessionEstablishmentRequest then some true
  else if isDefaultRequest h.msgType && (h.seid.bind p.sessionTable.lookup).isNone then
    some false
  else none

section Selects

variable (p : Proxy) {t : MsgType} (seid : Option UInt64) (src : SocketAddr) (ω : ℕ → Bool)

lemma run_routeEstablishment_pool :
    (run exec (routeEstablishment seid src) ω p).state.upfPool = afterChoice p.upfPool := by
  obtain ⟨hv, hs⟩ := run_selectUpf ω p
  unfold routeEstablishment
  rw [run_bind, hv, hs]
  cases chooseUpf p.upfPool p.sessionTable with
  | none => rfl
  | some u => cases seid <;> rfl

lemma run_routeAffinity_pool (t : MsgType) :
    (run exec (routeAffinity t seid) ω p).state.upfPool = p.upfPool := by
  cases seid with
  | none => rfl
  | some s =>
    simp only [routeAffinity, Prog.call_bind, run_act, exec]
    cases p.sessionTable.lookup s with
    | none => rfl
    | some u =>
      by_cases ht : t = .sessionDeletionRequest
      · simp [ht, run_act, exec, recordRoutingDecision, recordSessionDeleted]
      · simp [ht, run_act, exec, recordRoutingDecision]

lemma run_routeDefault_pool :
    (run exec (routeDefault seid src) ω p).state.upfPool =
      if (seid.bind p.sessionTable.lookup).isNone then afterChoice p.upfPool else p.upfPool := by
  cases seid with
  | none =>
    obtain ⟨hv, hs⟩ := run_selectUpf ω p
    unfold routeDefault
    simp only
    rw [run_bind, hv, hs]
    cases chooseUpf p.upfPool p.sessionTable <;> rfl
  | some s =>
    simp only [routeDefault, Prog.call_bind, run_act, exec, Option.bind_some]
    rcases Option.eq_none_or_eq_some (p.sessionTable.lookup s) with hl | ⟨u, hl⟩
    · obtain ⟨hv, hs⟩ := run_selectUpf (fun n => ω (n + 1)) p
      simp only [hl]
      rw [run_bind, hv, hs]
      cases chooseUpf p.upfPool p.sessionTable <;> rfl
    · simp [hl, run_act, exec, recordRoutingDecision]

/-- Routing moves the selection index for the requests that select. -/
lemma run_routeMessage_pool (ht : isSmfRequest t = true) (q : UInt32) :
    (run exec (routeMessage t seid src) ω p).state.upfPool =
      if (Header.selects ⟨t, seid, q⟩ p).isSome then afterChoice p.upfPool else p.upfPool := by
  rcases (isSmfRequest_iff t).mp ht with hb | rfl | rfl | rfl | hdef
  · have hne : t ≠ .sessionEstablishmentRequest ∧ isDefaultRequest t = false := by
      cases t <;> simp_all [isBroadcastRequest, isDefaultRequest]
    rw [routeMessage_of_broadcast hb]
    simp [Header.selects, hne, routeBroadcast, recordRoutingDecision, run_act, exec]
  · exact run_routeEstablishment_pool p seid src ω
  · exact run_routeAffinity_pool p seid ω _
  · exact run_routeAffinity_pool p seid ω _
  · obtain ⟨_, _, he, _⟩ := isDefaultRequest_ne hdef
    rw [routeMessage_of_default hdef, run_routeDefault_pool]
    cases hl : (seid.bind p.sessionTable.lookup).isNone with
    | true => simp [Header.selects, he, hdef, hl]
    | false => simp [Header.selects, he, hl]

end Selects

lemma handled_pool (p : Proxy) (ω : ℕ → Bool) {d : Datagram} {h : Header} (hd : d.header = some h)
    (ht : isSmfRequest h.msgType = true) :
    (handled ω d p).state.upfPool =
      if (h.selects p).isSome then afterChoice p.upfPool else p.upfPool := by
  rw [handled, handleMessage_smf hd ht, run_bind, run_recordMessageReceived]
  simp only
  rw [run_bind]
  simp only
  rw [(run_forwardRequest_sessions _ _ _ _ _ _).upfPool,
    run_routeMessage_pool (p.received h.msgType) h.seid d.src _ ht h.sequence]
  rfl

/-! ### Sequential runs -/

/-- A datagram together with what the environment decides for its sends. -/
abbrev Arrival := Datagram × (ℕ → Bool)

/-- The state after an arrival has been handled. -/
def Proxy.next (p : Proxy) (x : Arrival) : Proxy := (handled x.2 x.1 p).state

/-- The selections of a sequential run: whether each is for a session. -/
def selections : List Arrival → Proxy → List Bool
  | [], _ => []
  | x :: xs, p => (x.1.header.bind fun h => h.selects p).toList ++ selections xs (p.next x)

/-- The UPF an establishment request is routed to. -/
def Header.placedOn (h : Header) (p : Proxy) : Option SocketAddr :=
  if h.msgType = .sessionEstablishmentRequest then
    match routeDecision p h.msgType h.seid with
    | .single u => some u
    | _ => none
  else none

/-- Where the handler of an arrival sends it, if it is an establishment request. -/
def sessionSends (x : Arrival) (p : Proxy) : List SocketAddr :=
  if x.1.header.any fun h => h.msgType = .sessionEstablishmentRequest then
    (copies (handled x.2 x.1 p).acts).map Prod.snd
  else []

/-- Where the establishment requests of a sequential run are sent. -/
def placements : List Arrival → Proxy → List SocketAddr
  | [], _ => []
  | x :: xs, p => sessionSends x p ++ placements xs (p.next x)

/-- For each selection for a session, the number of selections before it, counted from `k`. -/
def turns : List Bool → ℕ → List ℕ
  | [], _ => []
  | true :: bs, k => k :: turns bs (k + 1)
  | false :: bs, k => turns bs (k + 1)

/-- Within a round of `n`, no two turns are a multiple of `n` apart. -/
def ApartInRounds (n : ℕ) (ks : List ℕ) : Prop :=
  ∀ i j a b, i < j → i / n = j / n → ks[i]? = some a → ks[j]? = some b → a % n ≠ b % n

/-- Every request is one of an SMF. -/
def FromSmf (xs : List Arrival) : Prop :=
  ∀ x ∈ xs, ∃ h, x.1.header = some h ∧ isSmfRequest h.msgType = true

/-- Round robin over eligible backends. -/
structure RoundRobinPool (p : UpfPool) : Prop where
  strategy : p.strategy = .roundRobin
  nonempty : p.backends ≠ []
  eligible : ∀ b ∈ p.backends, b.health.eligible = true

namespace RoundRobinPool

variable {p : Proxy}

lemma healthy (hp : RoundRobinPool p.upfPool) :
    p.upfPool.healthyBackends = p.upfPool.backends :=
  List.filter_eq_self.mpr hp.eligible

lemma choose (hp : RoundRobinPool p.upfPool) (t : SessionTable) :
    chooseUpf p.upfPool t =
      p.upfPool.addrs[p.upfPool.nextIndex.toNat % p.upfPool.addrs.length]? := by
  rw [chooseUpf, hp.healthy, if_neg hp.nonempty, hp.strategy]
  simp only [pickRoundRobin, UpfPool.addrs, List.getElem?_map, List.length_map]

lemma afterChoice_eq (hp : RoundRobinPool p.upfPool) :
    afterChoice p.upfPool = { p.upfPool with nextIndex := p.upfPool.nextIndex + 1 } := by
  have hnot : ¬(p.upfPool.healthyBackends = [] ∨ p.upfPool.strategy = .leastSessions) := by
    simp [hp.healthy, hp.nonempty, hp.strategy]
  rw [afterChoice, if_neg hnot]

lemma next (hp : RoundRobinPool p.upfPool) {x : Arrival} {h : Header} (hd : x.1.header = some h)
    (ht : isSmfRequest h.msgType = true) :
    RoundRobinPool (p.next x).upfPool ∧ (p.next x).upfPool.addrs = p.upfPool.addrs ∧
      (p.next x).upfPool.nextIndex =
        if (h.selects p).isSome then p.upfPool.nextIndex + 1 else p.upfPool.nextIndex := by
  rw [Proxy.next, handled_pool p x.2 hd ht, hp.afterChoice_eq]
  split
  · exact ⟨⟨hp.strategy, hp.nonempty, hp.eligible⟩, rfl, rfl⟩
  · exact ⟨hp, rfl, rfl⟩

end RoundRobinPool

/-! ### Where sessions are sent -/

lemma Unsent.copies_eq_nil {l : Acts} (hl : Unsent l) : copies l = [] := by
  rw [copies, List.filterMap_eq_nil_iff]
  rintro ⟨o, r⟩ ha
  have hno := (hl _ ha).2
  cases o <;> first | rfl | cases hno

lemma forwardRequest_single_copies (ω : ℕ → Bool) (p : Proxy) (data : List UInt8)
    (src : SocketAddr) (q : UInt32) (u : SocketAddr) :
    copies (run exec (forwardRequest data src q (.single u)) ω p).acts = [(data, u)] := by
  simp only [forwardRequest, recordMessageSent, Prog.call_bind, run_act, exec]
  cases ω 1 <;> simp [run_act, Prog.call, Op.copy]

/-- The handler sends an establishment request to the UPF that routing decides on, once. -/
lemma sessionSends_eq (x : Arrival) (p : Proxy) :
    sessionSends x p = (x.1.header.bind fun h => h.placedOn p).toList := by
  cases hd : x.1.header with
  | none => simp [sessionSends, hd]
  | some h =>
    by_cases ht : h.msgType = .sessionEstablishmentRequest
    · have hsmf : isSmfRequest h.msgType = true := by rw [ht]; rfl
      obtain ⟨y, k, _, hunsent, _, hacts⟩ := handled_smf p x.2 hd hsmf
      have hcopies : copies (handled x.2 x.1 p).acts =
          copies (run exec (forwardRequest x.1.data x.1.src h.sequence
            (routeDecision p h.msgType h.seid)) (fun n => x.2 (n + k)) y.state).acts := by
        rw [hacts, copies_append, copies_append, hunsent.copies_eq_nil]
        simp [Op.copy]
      simp only [sessionSends, hd, Option.any_some, ht, decide_true, if_true, hcopies,
        Option.bind_some, Header.placedOn]
      rcases hdec : routeDecision p .sessionEstablishmentRequest h.seid with u | bs | _ | _ | _ | _
      · simp [forwardRequest_single_copies]
      · simp only [routeDecision, isBroadcastRequest, Bool.false_eq_true, if_false, if_true] at hdec
        split at hdec <;> cases hdec
      all_goals simp [forwardRequest, copies]
    · simp [sessionSends, hd, ht, Header.placedOn]

lemma placements_cons (x : Arrival) (xs : List Arrival) (p : Proxy) :
    placements (x :: xs) p =
      (x.1.header.bind fun h => h.placedOn p).toList ++ placements xs (p.next x) := by
  rw [placements, sessionSends_eq]

lemma placedOn_eq_none {h : Header} {p : Proxy} (hs : h.selects p ≠ some true) :
    h.placedOn p = none := by
  unfold Header.selects at hs
  unfold Header.placedOn
  split
  · rename_i ht
    simp [ht] at hs
  · rfl

/-- A session is placed where the index points. -/
lemma placedOn_of_selects {h : Header} {p : Proxy} (hp : RoundRobinPool p.upfPool)
    (hs : h.selects p = some true) :
    h.placedOn p = p.upfPool.addrs[p.upfPool.nextIndex.toNat % p.upfPool.addrs.length]? := by
  have ht : h.msgType = .sessionEstablishmentRequest := by
    unfold Header.selects at hs
    split at hs
    · assumption
    · split at hs <;> cases hs
  rw [Header.placedOn, if_pos ht, ← hp.choose p.sessionTable, ht]
  simp only [routeDecision, isBroadcastRequest, Bool.false_eq_true, if_false, if_true]
  cases chooseUpf p.upfPool p.sessionTable <;> rfl

/-- The sessions of a sequential run are placed where their turns point. -/
lemma placements_eq {xs : List Arrival} {p : Proxy} (hp : RoundRobinPool p.upfPool)
    (hsmf : FromSmf xs)
    (hwrap : p.upfPool.nextIndex.toNat + (selections xs p).length < UInt64.size) :
    (placements xs p).map some =
      (turns (selections xs p) p.upfPool.nextIndex.toNat).map
        (fun k => p.upfPool.addrs[k % p.upfPool.addrs.length]?) := by
  induction xs generalizing p with
  | nil => rfl
  | cons x xs ih =>
    obtain ⟨h, hd, ht⟩ := hsmf x (by simp)
    have hsmf' : FromSmf xs := fun y hy => hsmf y (List.mem_cons_of_mem _ hy)
    obtain ⟨hp', haddrs, hindex⟩ := hp.next hd ht
    simp only [selections, placements_cons, hd, Option.bind_some] at hwrap ⊢
    cases hs : h.selects p with
    | none =>
      rw [hs, Option.isSome_none, if_neg Bool.false_ne_true] at hindex
      rw [placedOn_eq_none (by simp [hs])]
      simp only [hs, Option.toList_none, List.nil_append] at hwrap ⊢
      rw [ih hp' hsmf' (by rwa [hindex]), hindex, haddrs]
    | some b =>
      rw [hs, Option.isSome_some, if_pos rfl] at hindex
      simp only [hs, Option.toList_some, List.cons_append, List.nil_append, List.length_cons]
        at hwrap ⊢
      have hnext : (p.next x).upfPool.nextIndex.toNat = p.upfPool.nextIndex.toNat + 1 := by
        rw [hindex, UInt64.toNat_add]
        exact Nat.mod_eq_of_lt (by
          have hsize : UInt64.size = 2 ^ 64 := rfl
          simp only [UInt64.toNat_one]
          omega)
      have ih' := ih hp' hsmf' (by omega)
      rw [hnext, haddrs] at ih'
      cases b with
      | true =>
        have hlt : p.upfPool.nextIndex.toNat % p.upfPool.addrs.length < p.upfPool.addrs.length := by
          apply Nat.mod_lt
          simpa [UpfPool.addrs] using List.length_pos_iff.mpr hp.nonempty
        rw [placedOn_of_selects hp hs, turns, List.map_cons, ← ih', List.getElem?_eq_getElem hlt]
        rfl
      | false =>
        rw [placedOn_eq_none (by simp [hs])]
        exact ih'

/-! ### Prefixes -/

lemma placements_append (xs ys : List Arrival) (p : Proxy) :
    placements (xs ++ ys) p = placements xs p ++ placements ys (xs.foldl Proxy.next p) := by
  induction xs generalizing p with
  | nil => rfl
  | cons x xs ih => rw [List.cons_append, placements, ih, placements, List.append_assoc, List.foldl_cons]

lemma exists_prefix_placements {xs : List Arrival} {p : Proxy} {w : List SocketAddr}
    (hw : w <+: placements xs p) : ∃ ys, ys <+: xs ∧ placements ys p = w := by
  induction xs generalizing p w with
  | nil => exact ⟨[], List.prefix_refl _, (List.prefix_nil.mp hw).symm⟩
  | cons x xs ih =>
    rw [placements_cons] at hw
    cases hu : x.1.header.bind fun h => h.placedOn p with
    | none =>
      rw [hu] at hw
      obtain ⟨ys, hys, hplace⟩ := ih hw
      exact ⟨x :: ys, by simpa using hys, by simpa [placements_cons, hu] using hplace⟩
    | some u =>
      rw [hu] at hw
      cases w with
      | nil => exact ⟨[], List.nil_prefix, rfl⟩
      | cons v w =>
        rw [Option.toList_some, List.singleton_append, List.cons_prefix_cons] at hw
        obtain ⟨rfl, hw⟩ := hw
        obtain ⟨ys, hys, hplace⟩ := ih hw
        exact ⟨x :: ys, by simpa using hys, by simpa [placements_cons, hu] using hplace⟩

lemma alwaysEven_placements_iff {S : Finset SocketAddr} {xs : List Arrival} {p : Proxy} :
    Rounds.AlwaysEven S (placements xs p) ↔ ∀ ys, ys <+: xs → Rounds.Even S (placements ys p) := by
  constructor
  · rintro h _ ⟨zs, rfl⟩
    exact h _ (by rw [placements_append]; exact List.prefix_append _ _)
  · intro h w hw
    obtain ⟨ys, hys, rfl⟩ := exists_prefix_placements hw
    exact h ys hys

/-- Over distinct places, visits are distinct in rounds exactly if the turns are apart. -/
lemma distinctInRounds_iff {places w : List SocketAddr} {ks : List ℕ} (hnodup : places.Nodup)
    (hne : places ≠ [])
    (hw : w.map some = ks.map (fun k => places[k % places.length]?)) :
    Rounds.DistinctInRounds places.length w ↔ ApartInRounds places.length ks := by
  have hpos : 0 < places.length := List.length_pos_iff.mpr hne
  have hat (i : ℕ) : w[i]?.map some = ks[i]?.map (fun k => places[k % places.length]?) := by
    rw [← List.getElem?_map, hw, List.getElem?_map]
  constructor
  · intro h i j a b hij hdiv hi hj hab
    have hai := hat i
    have haj := hat j
    rw [hi, Option.map_some, List.getElem?_eq_getElem (Nat.mod_lt a hpos)] at hai
    rw [hj, Option.map_some, ← hab, List.getElem?_eq_getElem (Nat.mod_lt a hpos)] at haj
    exact h i j _ hij hdiv (by simpa using hai) (by simpa using haj)
  · intro h i j u hij hdiv hi hj
    have hai := hat i
    have haj := hat j
    rw [hi, Option.map_some] at hai
    rw [hj, Option.map_some] at haj
    obtain ⟨a, ha, hua⟩ := Option.map_eq_some_iff.mp hai.symm
    obtain ⟨b, hb, hub⟩ := Option.map_eq_some_iff.mp haj.symm
    refine h i j a b hij hdiv ha hb ?_
    exact (List.getElem?_inj (Nat.mod_lt a hpos) hnodup).mp (hua.trans hub.symm)

/-! ### Evenness -/

section Evenness

variable {p : Proxy} {xs : List Arrival}

lemma placements_eq_turns (hp : RoundRobinPool p.upfPool) (hstart : p.upfPool.nextIndex = 0)
    (hsmf : FromSmf xs) (hwrap : (selections xs p).length < UInt64.size) :
    (placements xs p).map some = (turns (selections xs p) 0).map
      (fun k => p.upfPool.addrs[k % p.upfPool.addrs.length]?) := by
  have hplaces := placements_eq hp hsmf (by rwa [hstart, UInt64.toNat_zero, Nat.zero_add])
  rwa [hstart, UInt64.toNat_zero] at hplaces

lemma mem_addrs_of_placements (hp : RoundRobinPool p.upfPool) (hstart : p.upfPool.nextIndex = 0)
    (hsmf : FromSmf xs) (hwrap : (selections xs p).length < UInt64.size) :
    ∀ u ∈ placements xs p, u ∈ p.upfPool.addrs.toFinset := by
  intro u hu
  have hsome := List.mem_map_of_mem (f := some) hu
  rw [placements_eq_turns hp hstart hsmf hwrap] at hsome
  obtain ⟨k, _, hk⟩ := List.mem_map.mp hsome
  exact List.mem_toFinset.mpr (List.mem_of_getElem? hk)

/-- Sessions are always spread evenly exactly if their selections are apart in each round. -/
lemma alwaysEven_iff_apart (hp : RoundRobinPool p.upfPool) (hnodup : p.upfPool.addrs.Nodup)
    (hstart : p.upfPool.nextIndex = 0) (hsmf : FromSmf xs)
    (hwrap : (selections xs p).length < UInt64.size) :
    Rounds.AlwaysEven p.upfPool.addrs.toFinset (placements xs p) ↔
      ApartInRounds p.upfPool.addrs.length (turns (selections xs p) 0) := by
  have hne : p.upfPool.addrs ≠ [] := by simpa [UpfPool.addrs] using hp.nonempty
  rw [Rounds.alwaysEven_iff (mem_addrs_of_placements hp hstart hsmf hwrap),
    List.toFinset_card_of_nodup hnodup]
  exact distinctInRounds_iff hnodup hne (placements_eq_turns hp hstart hsmf hwrap)

/-- With round robin, sessions are spread evenly at every moment of a sequential run if and
only if no two sessions of a round are a multiple of the number of backends apart, counted
in selections. -/
theorem round_robin_even_iff (hp : RoundRobinPool p.upfPool) (hnodup : p.upfPool.addrs.Nodup)
    (hstart : p.upfPool.nextIndex = 0) (hsmf : FromSmf xs)
    (hwrap : (selections xs p).length < UInt64.size) :
    (∀ ys, ys <+: xs → ∀ u ∈ p.upfPool.addrs, ∀ v ∈ p.upfPool.addrs,
      (placements ys p).count u ≤ (placements ys p).count v + 1) ↔
    ApartInRounds p.upfPool.addrs.length (turns (selections xs p) 0) := by
  calc
    _ ↔ ∀ ys, ys <+: xs → Rounds.Even p.upfPool.addrs.toFinset (placements ys p) := by
      simp only [Rounds.Even, List.mem_toFinset]
    _ ↔ Rounds.AlwaysEven p.upfPool.addrs.toFinset (placements xs p) :=
      alwaysEven_placements_iff.symm
    _ ↔ _ := alwaysEven_iff_apart hp hnodup hstart hsmf hwrap

lemma apartInRounds_range (n m : ℕ) : ApartInRounds n (List.range m) := by
  intro i j a b hij hdiv hi hj hab
  obtain ⟨_, rfl⟩ := List.getElem?_eq_some_iff.mp hi
  obtain ⟨_, rfl⟩ := List.getElem?_eq_some_iff.mp hj
  rw [List.getElem_range, List.getElem_range] at hab
  have hi' := Nat.div_add_mod i n
  have hj' := Nat.div_add_mod j n
  rw [hdiv, hab] at hi'
  omega

lemma turns_replicate (m k : ℕ) : turns (List.replicate m true) k = List.range' k m := by
  induction m generalizing k with
  | zero => rfl
  | succ m ih => rw [List.replicate_succ, turns, ih, List.range'_succ]

/-- Where only sessions are balanced, they are spread evenly. -/
theorem round_robin_even (hp : RoundRobinPool p.upfPool) (hnodup : p.upfPool.addrs.Nodup)
    (hstart : p.upfPool.nextIndex = 0) (hsmf : FromSmf xs)
    (hwrap : (selections xs p).length < UInt64.size) (hsessions : false ∉ selections xs p)
    {u v : SocketAddr} (hu : u ∈ p.upfPool.addrs) (hv : v ∈ p.upfPool.addrs) :
    (placements xs p).count u ≤ (placements xs p).count v + 1 := by
  have hall : selections xs p = List.replicate (selections xs p).length true := by
    rw [List.eq_replicate_iff]
    refine ⟨rfl, fun b hb => ?_⟩
    cases b with
    | true => rfl
    | false => exact absurd hb hsessions
  have hapart : ApartInRounds p.upfPool.addrs.length (turns (selections xs p) 0) := by
    rw [hall, turns_replicate, ← List.range_eq_range']
    exact apartInRounds_range _ _
  have heven := (alwaysEven_iff_apart hp hnodup hstart hsmf hwrap).mpr hapart
  exact heven _ (List.prefix_refl _) u (List.mem_toFinset.mpr hu) v (List.mem_toFinset.mpr hv)

end Evenness

/-- Every send of the arrival succeeds. -/
def arrival (t : MsgType) (seid : Option UInt64) (sequence : UInt32) : Arrival :=
  (message t seid sequence smfA, fun _ => true)

/-- Two sessions established one after the other. -/
theorem round_robin_even_iff_two :
    (placements [arrival .sessionEstablishmentRequest (some 7) 1,
        arrival .sessionEstablishmentRequest (some 8) 2]
          (Proxy.new [upfX, upfY] .roundRobin)).count upfX ≤
      (placements [arrival .sessionEstablishmentRequest (some 7) 1,
        arrival .sessionEstablishmentRequest (some 8) 2]
          (Proxy.new [upfX, upfY] .roundRobin)).count upfY + 1 := by
  refine (round_robin_even_iff (p := Proxy.new [upfX, upfY] .roundRobin) ⟨rfl, by decide, by decide⟩
    (by decide) rfl ?_ (by decide +kernel)).mpr ?_ _ (List.prefix_refl _) upfX (by decide) upfY
    (by decide)
  · intro x hx
    simp only [List.mem_cons, List.not_mem_nil, or_false] at hx
    rcases hx with rfl | rfl <;> exact ⟨_, rfl, rfl⟩
  · have hturns : turns (selections [arrival .sessionEstablishmentRequest (some 7) 1,
        arrival .sessionEstablishmentRequest (some 8) 2] (Proxy.new [upfX, upfY] .roundRobin)) 0 =
        List.range 2 := by decide +kernel
    rw [hturns]
    exact apartInRounds_range _ _

/-- An association release between two sessions takes the turn of the second backend. -/
theorem round_robin_even_fails :
    ¬∀ (backends : List SocketAddr) (xs : List Arrival), backends ≠ [] → backends.Nodup →
      FromSmf xs → (selections xs (Proxy.new backends .roundRobin)).length < UInt64.size →
      ∀ u ∈ backends, ∀ v ∈ backends,
        (placements xs (Proxy.new backends .roundRobin)).count u ≤
          (placements xs (Proxy.new backends .roundRobin)).count v + 1 := by
  intro h
  have hsmf : FromSmf [arrival .sessionEstablishmentRequest (some 7) 1,
      arrival .associationReleaseRequest none 2,
      arrival .sessionEstablishmentRequest (some 8) 3] := by
    intro x hx
    simp only [List.mem_cons, List.not_mem_nil, or_false] at hx
    rcases hx with rfl | rfl | rfl <;> exact ⟨_, rfl, rfl⟩
  have heven := h [upfX, upfY] _ (by decide) (by decide) hsmf (by decide +kernel) upfX (by decide)
    upfY (by decide)
  revert heven
  decide +kernel

end PfcpProxy
