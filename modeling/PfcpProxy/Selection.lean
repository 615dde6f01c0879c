import Mathlib.Algebra.Ring.Nat
import PfcpProxy.Handlers

/-!
# Backend selection, uninterrupted

What `select_upf` returns and leaves behind when no other task interferes, for every
strategy, and when it returns a backend at all.
-/

namespace PfcpProxy

open AtomicTasks

/-- The value of `leastSessionsLoop` over a table that does not change. -/
def leastSessions (t : SessionTable) : List UpfBackend → ℕ → Option SocketAddr → Option SocketAddr
  | [], _, selected => selected
  | b :: rest, minSessions, selected =>
    if t.countByUpf b.addr < minSessions then
      leastSessions t rest (t.countByUpf b.addr) (some b.addr)
    else
      leastSessions t rest minSessions selected

/-- What selection returns for this pool and table. -/
def chooseUpf (pool : UpfPool) (t : SessionTable) : Option SocketAddr :=
  if pool.healthyBackends = [] then none
  else match pool.strategy with
    | .roundRobin => pickRoundRobin pool.healthyBackends pool.nextIndex
    | .leastSessions => leastSessions t pool.healthyBackends usizeMax none
    | .weighted =>
      if totalWeight pool.healthyBackends = 0 then
        pickRoundRobin pool.healthyBackends pool.nextIndex
      else pickWeighted pool.healthyBackends pool.nextIndex

/-- The pool selection leaves: the index moves on unless sessions are counted. -/
def afterChoice (pool : UpfPool) : UpfPool :=
  if pool.healthyBackends = [] ∨ pool.strategy = .leastSessions then pool
  else { pool with nextIndex := pool.nextIndex + 1 }

@[simp] lemma afterChoice_backends (pool : UpfPool) :
    (afterChoice pool).backends = pool.backends := by
  unfold afterChoice
  split <;> rfl

variable (ω : ℕ → Bool) (p : Proxy)

lemma run_leastSessionsLoop (bs : List UpfBackend) (n : ℕ) (sel : Option SocketAddr) :
    (run exec (leastSessionsLoop bs n sel) ω p).value = leastSessions p.sessionTable bs n sel ∧
    (run exec (leastSessionsLoop bs n sel) ω p).state = p := by
  induction bs generalizing n sel ω with
  | nil => exact ⟨rfl, rfl⟩
  | cons b bs ih =>
    simp only [leastSessionsLoop, Prog.call_bind, run_act, exec, leastSessions]
    by_cases hb : p.sessionTable.countByUpf b.addr < n
    · simp only [hb, if_true]
      exact ih _ _ _
    · simp only [hb, if_false]
      exact ih _ _ _

/-- Uninterrupted selection. -/
theorem run_selectUpf :
    (run exec selectUpf ω p).value = chooseUpf p.upfPool p.sessionTable ∧
    (run exec selectUpf ω p).state = { p with upfPool := afterChoice p.upfPool } := by
  simp only [selectUpf, Prog.call_bind, run_act, exec, chooseUpf, afterChoice]
  cases hs : p.upfPool.strategy with
  | roundRobin =>
    simp only [selectRoundRobin, Prog.call_bind, run_act, exec, List.isEmpty_iff]
    by_cases hh : p.upfPool.healthyBackends = []
    · simp [hh]
    · simp [hh, hs, run_act, exec]
  | leastSessions =>
    simp only [selectLeastSessions, Prog.call_bind, run_act, exec, List.isEmpty_iff]
    by_cases hh : p.upfPool.healthyBackends = []
    · simp [hh]
    · simp only [hh, if_false, or_true, if_true]
      exact run_leastSessionsLoop _ _ _ _ _
  | weighted =>
    simp only [selectWeighted, selectRoundRobin, Prog.call_bind, run_act, exec, List.isEmpty_iff]
    by_cases hh : p.upfPool.healthyBackends = []
    · simp [hh]
    · by_cases hw : totalWeight p.upfPool.healthyBackends = 0
      · simp [hh, hw, hs, run_act, exec]
      · simp [hh, hw, hs, run_act, exec]

/-! ### When a backend is found -/

/-- Selection finds a backend: an eligible one, and with the least-sessions strategy one
whose sessions do not fill a `usize`. -/
def Selectable (pool : UpfPool) (t : SessionTable) : Prop :=
  match pool.strategy with
  | .leastSessions => ∃ b ∈ pool.healthyBackends, t.countByUpf b.addr < usizeMax
  | _ => pool.healthyBackends ≠ []

lemma pickRoundRobin_isSome {healthy : List UpfBackend} (h : healthy ≠ []) (idx : UInt64) :
    (pickRoundRobin healthy idx).isSome := by
  have hlt : idx.toNat % healthy.length < healthy.length :=
    Nat.mod_lt _ (List.length_pos_iff.mpr h)
  simp [pickRoundRobin, List.getElem?_eq_getElem hlt]

lemma leastSessions_some (t : SessionTable) (bs : List UpfBackend) (n : ℕ) (a : SocketAddr) :
    (leastSessions t bs n (some a)).isSome := by
  induction bs generalizing n a with
  | nil => rfl
  | cons b bs ih =>
    unfold leastSessions
    split
    · exact ih _ _
    · exact ih _ _

lemma leastSessions_isSome_iff (t : SessionTable) (bs : List UpfBackend) (n : ℕ) :
    (leastSessions t bs n none).isSome ↔ ∃ b ∈ bs, t.countByUpf b.addr < n := by
  induction bs with
  | nil => simp [leastSessions]
  | cons b bs ih =>
    unfold leastSessions
    by_cases hb : t.countByUpf b.addr < n
    · simp [hb, leastSessions_some]
    · simp [hb, ih]

lemma totalWeight_le (bs : List UpfBackend) :
    (totalWeight bs).toNat ≤ (bs.map (·.weight.toNat)).sum := by
  have hfold (acc : UInt32) : (bs.foldl (fun acc b => acc + b.weight) acc).toNat ≤
      acc.toNat + (bs.map (·.weight.toNat)).sum := by
    induction bs generalizing acc with
    | nil => simp
    | cons b bs ih =>
      have hadd : (acc + b.weight).toNat ≤ acc.toNat + b.weight.toNat := by
        rw [UInt32.toNat_add]
        exact Nat.mod_le _ _
      have hrest := ih (acc + b.weight)
      simp only [List.foldl_cons, List.map_cons, List.sum_cons]
      omega
  simpa [totalWeight] using hfold 0

lemma weightedScan_isSome (w : ℕ) (bs : List UpfBackend) (c : ℕ)
    (hw : w < c + (bs.map (·.weight.toNat)).sum) (hc : c ≤ w) : (weightedScan w bs c).isSome := by
  induction bs generalizing c with
  | nil =>
    simp only [List.map_nil, List.sum_nil] at hw
    omega
  | cons b bs ih =>
    unfold weightedScan
    by_cases hb : w < c + b.weight.toNat
    · simp [hb]
    · simp only [hb, if_false]
      simp only [List.map_cons, List.sum_cons] at hw
      exact ih _ (by omega) (by omega)

lemma pickWeighted_isSome {healthy : List UpfBackend} (h : totalWeight healthy ≠ 0)
    (idx : UInt64) : (pickWeighted healthy idx).isSome := by
  have hpos : 0 < (totalWeight healthy).toNat := by
    rw [Nat.pos_iff_ne_zero]
    exact fun h0 => h (UInt32.toNat_inj.mp (by simpa using h0))
  have hlt := Nat.mod_lt idx.toNat hpos
  have hle := totalWeight_le healthy
  exact weightedScan_isSome _ _ _ (by omega) (Nat.zero_le _)

/-- Selection fails only where no backend is eligible. -/
theorem chooseUpf_isSome_iff (pool : UpfPool) (t : SessionTable) :
    (chooseUpf pool t).isSome ↔ Selectable pool t := by
  unfold chooseUpf Selectable
  by_cases hh : pool.healthyBackends = []
  · cases pool.strategy <;> simp [hh]
  · simp only [hh, if_false]
    cases pool.strategy with
    | roundRobin => simp [hh, pickRoundRobin_isSome hh]
    | leastSessions => exact leastSessions_isSome_iff t _ _
    | weighted =>
      by_cases hw : totalWeight pool.healthyBackends = 0
      · simp [hh, hw, pickRoundRobin_isSome hh]
      · simp [hh, hw, pickWeighted_isSome hw]

end PfcpProxy
