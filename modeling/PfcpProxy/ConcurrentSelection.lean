import PfcpProxy.Lib.Serialization
import PfcpProxy.Lib.Shares
import PfcpProxy.Refusals

/-!
# Concurrent selections

Any number of selections run at the same time over one pool whose eligible backends stay the
same. Each takes one value of the index, and together they take consecutive values, in
whatever order: how often a backend is chosen is a matter of counting residues.
-/

namespace PfcpProxy

open AtomicTasks

/-- Concurrent calls of the selection `f`. -/
def selectors (f : Handler (Option SocketAddr)) : System Op.Res Proxy Unit Env Bool :=
  ⟨exec, envStep, fun _ => f >>= fun _ => pure ()⟩

abbrev Calls := List (Event Op.Res Proxy Unit Env)

/-- Every call has returned, the `i`th one `rs[i]`. -/
def Returned (f : Handler (Option SocketAddr)) (hist : Calls) (c : Config Op.Res Proxy Unit)
    (rs : List (Option SocketAddr)) : Prop :=
  c.tasks.length = rs.length ∧ ∀ i r, rs[i]? = some r → Path f (acts i hist) (.done r)

/-- No call is still running. -/
def AllReturned (c : Config Op.Res Proxy Unit) : Prop := ∀ t ∈ c.tasks, t.prog = .done ()

/-- What happens around the calls leaves the list of eligible backends as it is. -/
def SameEligible (hist : Calls) : Prop :=
  ∀ e pre, .env e pre ∈ hist →
    (envStep e pre).upfPool.healthyBackends = pre.upfPool.healthyBackends

/-- The values of the index that were taken. -/
def fetches (l : Acts) : List UInt64 :=
  l.filterMap fun a => match a with
    | ⟨.poolNextIndex, idx⟩ => some idx
    | _ => none

variable {f : Handler (Option SocketAddr)} {p₀ : Proxy} {hist : Calls}
  {c : Config Op.Res Proxy Unit}

lemma exists_returned (hr : Run (selectors f) p₀ hist c) (hdone : AllReturned c) :
    ∃ rs, Returned f hist c rs := by
  have hcall : ∀ i : Fin c.tasks.length, ∃ r, Path f (acts i hist) (.done r) := by
    intro i
    have hget : c.tasks[(i : ℕ)]? = some c.tasks[i] := List.getElem?_eq_getElem i.isLt
    have hpath := hr.path hget
    rw [hdone c.tasks[i] (List.getElem_mem _)] at hpath
    obtain ⟨r, l₁, l₂, hl, hf, hrest⟩ := path_bind_done hpath
    obtain ⟨rfl, _⟩ := path_done_iff.mp hrest
    exact ⟨r, by rwa [hl, List.append_nil]⟩
  choose r hpath using hcall
  refine ⟨List.ofFn r, by simp, fun i r' hi => ?_⟩
  obtain ⟨hlt, rfl⟩ := List.getElem?_eq_some_iff.mp hi
  rw [List.length_ofFn] at hlt
  simpa using hpath ⟨i, hlt⟩

lemma allReturned_of_all (h : c.tasks.all (fun t => match t.prog with
    | .done _ => true
    | _ => false) = true) : AllReturned c := by
  intro t ht
  have hprog := List.all_eq_true.mp h t ht
  cases hp : t.prog with
  | done u => rfl
  | act o k => simp [hp] at hprog

lemma sameEligible_of_all (h : hist.all (fun e => match e with
    | .env _ _ => false
    | _ => true) = true) : SameEligible hist := by
  intro e pre he
  simpa using List.all_eq_true.mp h _ he

/-! ### What the calls read -/

lemma exec_healthyBackends (o : Op) (w : Bool) (p : Proxy) :
    (exec o w p).2.upfPool.healthyBackends = p.upfPool.healthyBackends := by
  cases o <;> rfl

lemma healthyBackends_eq (hr : Run (selectors f) p₀ hist c) (hsame : SameEligible hist) :
    c.shared.upfPool.healthyBackends = p₀.upfPool.healthyBackends := by
  induction hr with
  | nil => rfl
  | @snoc h c c' e hr hs ih =>
    have ih' := ih fun e pre he => hsame e pre (List.mem_append_left _ he)
    cases hs with
    | recv => exact ih'
    | env e => exact (hsame e c.shared (by simp)).trans ih'
    | act i m o k w hi => exact (exec_healthyBackends o w c.shared).trans ih'

lemma healthyBackends_read (hr : Run (selectors f) p₀ hist c) (hsame : SameEligible hist) {i : ℕ}
    {bs : List UpfBackend} (hread : ⟨.poolHealthyBackends, bs⟩ ∈ acts i hist) :
    bs = p₀.upfPool.healthyBackends := by
  obtain ⟨h₁, pre, h₂, rfl⟩ := exists_split_of_mem_acts hread
  obtain ⟨c₁, c₂, hr₁, hs, _⟩ := hr.split
  have hsame₁ : SameEligible h₁ := fun e p he => hsame e p (List.mem_append_left _ he)
  generalize hev : Event.act i (⟨.poolHealthyBackends, bs⟩ : Act Op.Res) pre = e at hs
  cases hs with
  | act j m o k w hi =>
    simp only [Event.act.injEq, Act.mk.injEq] at hev
    obtain ⟨rfl, ⟨rfl, hbs⟩, rfl⟩ := hev
    rw [← healthyBackends_eq hr₁ hsame₁]
    exact eq_of_heq hbs
  | recv m => cases hev
  | env e => cases hev

lemma fetches_append (l l' : Acts) : fetches (l ++ l') = fetches l ++ fetches l' :=
  List.filterMap_append

@[simp] lemma envStep_nextIndex (e : Env) (p : Proxy) :
    (envStep e p).upfPool.nextIndex = p.upfPool.nextIndex := by
  cases e with
  | addBackend a =>
    simp only [envStep, UpfPool.addBackend]
    split
    · rfl
    · split <;> rfl
  | removeBackend a =>
    simp only [envStep, UpfPool.removeBackend]
    split <;> rfl
  | _ => rfl

/-- The values taken are consecutive, whatever takes them. -/
lemma fetches_eq_range {M : Type} {handler : M → Handler Unit}
    {hist : List (Event Op.Res Proxy M Env)} {c : Config Op.Res Proxy M}
    (hr : Run ⟨exec, envStep, handler⟩ p₀ hist c) :
    ∃ n, fetches (allActs hist) =
        (List.range n).map (fun k => p₀.upfPool.nextIndex + UInt64.ofNat k) ∧
      c.shared.upfPool.nextIndex = p₀.upfPool.nextIndex + UInt64.ofNat n := by
  induction hr with
  | nil => exact ⟨0, rfl, by simp⟩
  | @snoc h c c' e hr hs ih =>
    obtain ⟨n, hfetch, hidx⟩ := ih
    rw [allActs_append, fetches_append, hfetch]
    cases hs with
    | recv => exact ⟨n, by simp [allActs, fetches], hidx⟩
    | env e => exact ⟨n, by simp [allActs, fetches], (envStep_nextIndex e _).trans hidx⟩
    | act i m o k w hi =>
      cases o with
      | poolNextIndex =>
        refine ⟨n + 1, ?_, ?_⟩
        · have hres : (exec .poolNextIndex w c.shared).1 =
              p₀.upfPool.nextIndex + UInt64.ofNat n := hidx
          rw [List.range_succ, List.map_append, List.map_singleton, ← hres]
          rfl
        · have hnext : (exec .poolNextIndex w c.shared).2.upfPool.nextIndex =
              c.shared.upfPool.nextIndex + 1 := rfl
          rw [hnext, hidx, UInt64.add_assoc, UInt64.ofNat_add]
          rfl
      | _ => exact ⟨n, List.append_nil _, hidx⟩

/-! ### One value for each call -/

/-- A call of `f` that sees the eligible backends `healthy` takes one value of the index and
returns what `pick` makes of it. -/
def TakesOne (f : Handler (Option SocketAddr)) (healthy : List UpfBackend)
    (pick : UInt64 → Option SocketAddr) : Prop :=
  ∀ l r, Path f l (.done r) → (∀ bs, ⟨.poolHealthyBackends, bs⟩ ∈ l → bs = healthy) →
    ∃ idx, fetches l = [idx] ∧ r = pick idx

lemma flatMap_getElem? {A : Type} (xs : List A) :
    (List.range xs.length).flatMap (fun i => xs[i]?.toList) = xs := by
  induction xs with
  | nil => rfl
  | cons x xs ih =>
    rw [List.length_cons, List.range_succ_eq_map, List.flatMap_cons, List.flatMap_map]
    simpa using ih

/-- The results of the calls are the picks for consecutive values, in some order. -/
lemma returned_perm {pick : UInt64 → Option SocketAddr}
    (htakes : TakesOne f p₀.upfPool.healthyBackends pick) (hr : Run (selectors f) p₀ hist c)
    (hsame : SameEligible hist) {rs : List (Option SocketAddr)} (hrs : Returned f hist c rs) :
    rs.Perm ((List.range rs.length).map
      (fun k => pick (p₀.upfPool.nextIndex + UInt64.ofNat k))) := by
  obtain ⟨hlen, hpath⟩ := hrs
  have hone : ∀ i r, rs[i]? = some r → ∃ idx, fetches (acts i hist) = [idx] ∧ r = pick idx :=
    fun i r hi => htakes _ r (hpath i r hi) fun bs hread => healthyBackends_read hr hsame hread
  have hacts := allActs_perm c.tasks.length hist fun _ _ _ => hr.act_lt
  have hfetch : (fetches (allActs hist)).Perm
      ((List.range rs.length).flatMap fun i => fetches (acts i hist)) := by
    rw [← hlen]
    simpa only [fetches, List.filterMap_flatMap] using hacts.filterMap _
  obtain ⟨n, hrange, _⟩ := fetches_eq_range hr
  have hresults : (List.range rs.length).flatMap (fun i => (fetches (acts i hist)).map pick) =
      rs := by
    conv_rhs => rw [← flatMap_getElem? rs]
    apply List.flatMap_congr
    intro i hi
    have hget := List.getElem?_eq_getElem (List.mem_range.mp hi)
    obtain ⟨idx, hfetches, hr⟩ := hone i _ hget
    rw [hfetches, hget, hr]
    rfl
  have hpick := hfetch.map pick
  rw [hrange, List.map_map, List.map_flatMap, hresults] at hpick
  have hn : n = rs.length := by simpa using hpick.length_eq
  subst hn
  exact hpick.symm

lemma selectRoundRobin_takesOne {healthy : List UpfBackend} (hne : healthy ≠ []) :
    TakesOne selectRoundRobin healthy (pickRoundRobin healthy) := by
  intro l r hpath hread
  simp only [selectRoundRobin, Prog.call_bind] at hpath
  cases hpath with
  | cons bs hpath =>
    obtain rfl := hread bs (by simp)
    simp only [List.isEmpty_iff, hne, if_false] at hpath
    cases hpath with
    | cons idx hpath =>
      obtain ⟨rfl, hr⟩ := path_done_iff.mp hpath
      exact ⟨idx, rfl, by simpa using hr⟩

lemma selectWeighted_takesOne {healthy : List UpfBackend} (hw : totalWeight healthy ≠ 0) :
    TakesOne selectWeighted healthy (pickWeighted healthy) := by
  intro l r hpath hread
  have hne : healthy ≠ [] := by
    rintro rfl
    exact hw rfl
  simp only [selectWeighted, Prog.call_bind] at hpath
  cases hpath with
  | cons bs hpath =>
    obtain rfl := hread bs (by simp)
    simp only [List.isEmpty_iff, hne, hw, if_false] at hpath
    cases hpath with
    | cons idx hpath =>
      obtain ⟨rfl, hr⟩ := path_done_iff.mp hpath
      exact ⟨idx, rfl, by simpa using hr⟩

/-! ### Round robin -/

section RoundRobin

variable {healthy : List UpfBackend}

lemma pickRoundRobin_eq_iff (hnodup : (healthy.map (·.addr)).Nodup) {u : ℕ}
    (hu : u < healthy.length) (idx : UInt64) :
    pickRoundRobin healthy idx = some healthy[u].addr ↔ idx.toNat % healthy.length = u := by
  have hlt : idx.toNat % healthy.length < healthy.length := Nat.mod_lt _ (by omega)
  rw [pickRoundRobin, List.getElem?_eq_getElem hlt, Option.map_some, Option.some.injEq]
  constructor
  · intro heq
    apply (List.getElem?_inj (by simpa using hlt) hnodup).mp
    rw [List.getElem?_map, List.getElem?_map, List.getElem?_eq_getElem hlt,
      List.getElem?_eq_getElem hu, Option.map_some, Option.map_some, heq]
  · intro heq
    simp only [heq]

lemma toNat_index (s : UInt64) (k : ℕ) :
    (s + UInt64.ofNat k).toNat = (s.toNat + k) % UInt64.size := by
  simp [UInt64.toNat_add]

/-- Round robin is fair. `m` calls over the same eligible backends, however they are
interleaved, choose any two of them equally often up to one, or up to two where the index
wraps. -/
theorem roundRobin_fair (hne : p₀.upfPool.healthyBackends ≠ [])
    (hnodup : (p₀.upfPool.healthyBackends.map (·.addr)).Nodup)
    (hr : Run (selectors selectRoundRobin) p₀ hist c) (hsame : SameEligible hist)
    (hdone : AllReturned c) (hm : c.tasks.length ≤ UInt64.size) :
    ∃ rs, Returned selectRoundRobin hist c rs ∧
      (∀ r ∈ rs, ∃ b ∈ p₀.upfPool.healthyBackends, r = some b.addr) ∧
      ∀ a ∈ p₀.upfPool.healthyBackends, ∀ b ∈ p₀.upfPool.healthyBackends,
        rs.count (some a.addr) ≤ rs.count (some b.addr) +
          if p₀.upfPool.nextIndex.toNat + c.tasks.length ≤ UInt64.size then 1 else 2 := by
  obtain ⟨rs, hrs⟩ := exists_returned hr hdone
  have hperm := returned_perm (selectRoundRobin_takesOne hne) hr hsame hrs
  have hcount : ∀ u (hu : u < p₀.upfPool.healthyBackends.length),
      rs.count (some p₀.upfPool.healthyBackends[u].addr) =
        Nat.count (fun k => (p₀.upfPool.nextIndex.toNat + k) % UInt64.size %
          p₀.upfPool.healthyBackends.length = u) rs.length := by
    intro u hu
    rw [hperm.count_eq, Shares.count_map_range]
    simp only [pickRoundRobin_eq_iff hnodup hu, toNat_index]
  refine ⟨rs, hrs, ?_, ?_⟩
  · intro r hmem
    obtain ⟨k, _, rfl⟩ := List.mem_map.mp (hperm.mem_iff.mp hmem)
    obtain ⟨u, hu⟩ := Option.isSome_iff_exists.mp (pickRoundRobin_isSome hne
      (p₀.upfPool.nextIndex + UInt64.ofNat k))
    obtain ⟨b, hb, rfl⟩ := pickRoundRobin_mem hu
    exact ⟨b, hb, hu⟩
  · intro a ha b hb
    obtain ⟨u, hu, rfl⟩ := List.getElem_of_mem ha
    obtain ⟨v, hv, rfl⟩ := List.getElem_of_mem hb
    rw [hcount u hu, hcount v hv, hrs.1]
    exact Shares.count_wrapped_residue_le hu hv p₀.upfPool.nextIndex.toNat_lt (hrs.1 ▸ hm)

/-- Two backends, and an index about to wrap. -/
def twoBackends (strategy : LoadBalancingStrategy) : Proxy :=
  { Proxy.new [] strategy with
    upfPool := ⟨[⟨.v4 1 8805, .healthy, 2⟩, ⟨.v4 2 8805, .unknown, 1⟩], 18446744073709551612,
      strategy, 64⟩ }

/-- Three calls that overlap. -/
def threeCalls : List (Choice Unit Env Bool) :=
  [.recv (), .recv (), .step 0 true, .step 1 true, .recv (), .step 1 true, .step 2 true,
    .step 2 true, .step 0 true]

/-- The history and the configuration they lead to. -/
def overlapping (f : Handler (Option SocketAddr)) (strategy : LoadBalancingStrategy) :
    Calls × Config Op.Res Proxy Unit :=
  replay (selectors f) threeCalls ([], ⟨twoBackends strategy, []⟩)

lemma overlapping_run (f : Handler (Option SocketAddr)) (strategy : LoadBalancingStrategy) :
    Run (selectors f) (twoBackends strategy) (overlapping f strategy).1
      (overlapping f strategy).2 :=
  replay_run threeCalls .nil

theorem roundRobin_fair_overlapping :
    ∃ rs, Returned selectRoundRobin (overlapping selectRoundRobin .roundRobin).1
        (overlapping selectRoundRobin .roundRobin).2 rs ∧
      rs.count (some (.v4 1 8805)) ≤ rs.count (some (.v4 2 8805)) + 1 := by
  obtain ⟨rs, hrs, _, hfair⟩ := roundRobin_fair (by decide) (by decide)
    (overlapping_run selectRoundRobin .roundRobin) (sameEligible_of_all (by decide))
    (allReturned_of_all (by decide)) (by decide)
  exact ⟨rs, hrs, hfair ⟨.v4 1 8805, .healthy, 2⟩ (by decide) ⟨.v4 2 8805, .unknown, 1⟩ (by decide)⟩

end RoundRobin

/-! ### Weighted selection -/

section Weighted

variable {healthy : List UpfBackend}

/-- A backend with its weight. -/
def UpfBackend.share (b : UpfBackend) : SocketAddr × ℕ := (b.addr, b.weight.toNat)

/-- The cumulative scan finds the block its index is in. -/
lemma weightedScan_eq_blockOf (r : ℕ) (bs : List UpfBackend) (s : ℕ) :
    weightedScan r bs s = Shares.blockOf r (bs.map UpfBackend.share) s := by
  induction bs generalizing s with
  | nil => rfl
  | cons b bs ih =>
    unfold weightedScan
    rw [ih]
    rfl

lemma map_share_fst (bs : List UpfBackend) :
    (bs.map UpfBackend.share).map Prod.fst = bs.map (·.addr) := by
  simp [UpfBackend.share]

lemma map_share_snd (bs : List UpfBackend) :
    (bs.map UpfBackend.share).map Prod.snd = bs.map (·.weight.toNat) := by
  simp [UpfBackend.share]

lemma totalWeight_eq_sum (bs : List UpfBackend)
    (hlt : (bs.map (·.weight.toNat)).sum < UInt32.size) :
    (totalWeight bs).toNat = (bs.map (·.weight.toNat)).sum := by
  have hfold : ∀ acc : UInt32, acc.toNat + (bs.map (·.weight.toNat)).sum < UInt32.size →
      (bs.foldl (fun acc b => acc + b.weight) acc).toNat =
        acc.toNat + (bs.map (·.weight.toNat)).sum := by
    clear hlt
    induction bs with
    | nil => simp
    | cons b bs ih =>
      intro acc hacc
      simp only [List.map_cons, List.sum_cons, List.foldl_cons] at hacc ⊢
      have hadd : (acc + b.weight).toNat = acc.toNat + b.weight.toNat := by
        rw [UInt32.toNat_add, Nat.mod_eq_of_lt]
        have hsize : UInt32.size = 2 ^ 32 := rfl
        omega
      rw [ih _ (by omega), hadd, Nat.add_assoc]
  simpa [totalWeight] using hfold 0 (by simpa using hlt)

/-- Weighted selection gives exact shares. As many calls as the weights of the eligible
backends add up to, however they are interleaved, choose each backend as often as its weight
says. -/
theorem weighted_shares (hnodup : (p₀.upfPool.healthyBackends.map (·.addr)).Nodup)
    (hpos : 0 < (p₀.upfPool.healthyBackends.map (·.weight.toNat)).sum)
    (hlt : (p₀.upfPool.healthyBackends.map (·.weight.toNat)).sum < UInt32.size)
    (hr : Run (selectors selectWeighted) p₀ hist c) (hsame : SameEligible hist)
    (hdone : AllReturned c)
    (hcalls : c.tasks.length = (p₀.upfPool.healthyBackends.map (·.weight.toNat)).sum)
    (hwrap : p₀.upfPool.nextIndex.toNat + c.tasks.length ≤ UInt64.size) :
    ∃ rs, Returned selectWeighted hist c rs ∧
      ∀ b ∈ p₀.upfPool.healthyBackends, rs.count (some b.addr) = b.weight.toNat := by
  obtain ⟨rs, hrs⟩ := exists_returned hr hdone
  have htotal := totalWeight_eq_sum p₀.upfPool.healthyBackends hlt
  have hw : totalWeight p₀.upfPool.healthyBackends ≠ 0 := by
    intro hzero
    rw [hzero] at htotal
    exact absurd htotal hpos.ne
  have hperm := returned_perm (selectWeighted_takesOne hw) hr hsame hrs
  refine ⟨rs, hrs, fun b hb => ?_⟩
  have hlen : rs.length =
      ((p₀.upfPool.healthyBackends.map UpfBackend.share).map Prod.snd).sum := by
    rw [map_share_snd, ← hrs.1, hcalls]
  have hcount := Shares.count_blockOf (by rwa [map_share_fst])
    (List.mem_map_of_mem (f := UpfBackend.share) hb) p₀.upfPool.nextIndex.toNat
  rw [map_share_snd, ← htotal] at hcount
  rw [hperm.count_eq, Shares.count_map_range, ← hcount, hlen, map_share_snd, ← htotal]
  refine Shares.count_congr fun k hk => ?_
  -- the index has not wrapped, so it is reduced modulo the total weight as it is
  have hidx : (p₀.upfPool.nextIndex + UInt64.ofNat k).toNat = p₀.upfPool.nextIndex.toNat + k := by
    rw [toNat_index, Nat.mod_eq_of_lt]
    omega
  rw [pickWeighted, weightedScan_eq_blockOf, hidx]

theorem weighted_shares_overlapping :
    ∃ rs, Returned selectWeighted (overlapping selectWeighted .weighted).1
        (overlapping selectWeighted .weighted).2 rs ∧ rs.count (some (.v4 1 8805)) = 2 := by
  obtain ⟨rs, hrs, hshares⟩ := weighted_shares (by decide) (by decide) (by decide)
    (overlapping_run selectWeighted .weighted) (sameEligible_of_all (by decide))
    (allReturned_of_all (by decide)) (by decide) (by decide)
  exact ⟨rs, hrs, hshares ⟨.v4 1 8805, .healthy, 2⟩ (by decide)⟩

end Weighted

end PfcpProxy
