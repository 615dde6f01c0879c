import PfcpProxy.Session
import Mathlib.Data.List.Induction

/-!
# Idle sessions

`cleanup_idle` goes by the `last_activity` of a session. Only an insertion writes it: a session
is idle for the cleanup from its last insertion on, however often it is looked up.
-/

namespace PfcpProxy

/-- The operations of the session table that handlers perform. -/
inductive SessionOp
  | insert (seid : UInt64) (upfAddr smfAddr : SocketAddr)
  | lookup (seid : UInt64)
  | lookupFull (seid : UInt64)
  | remove (seid : UInt64)
  deriving DecidableEq, Repr

/-- The table after an operation at the instant `now`. -/
def SessionOp.apply (now : Instant) (t : SessionTable) : SessionOp → SessionTable
  | .insert s u a => t.insert now s u a
  | .lookup _ => t
  | .lookupFull _ => t
  | .remove s => t.remove s

/-- The operation finds the session `s` in the table. -/
def SessionOp.finds (s : UInt64) (t : SessionTable) : SessionOp → Bool
  | .lookup s' => s' = s ∧ (t.lookup s').isSome
  | .lookupFull s' => s' = s ∧ (t.lookupFull s').isSome
  | _ => false

/-- The operation inserts the session `s`. -/
def SessionOp.inserts (s : UInt64) : SessionOp → Bool
  | .insert s' _ _ => s' = s
  | _ => false

/-- Operations with the instants they are performed at. -/
abbrev Timed := List (Instant × SessionOp)

/-- The table some operations lead to. -/
def Timed.table (ops : Timed) : SessionTable :=
  ops.foldl (fun t x => x.2.apply x.1 t) Table.empty

/-- The instants of `ops`, performed on the table `t`, at which an operation that satisfies `P`
was performed. -/
def Timed.times (P : SessionTable → SessionOp → Bool) : Timed → SessionTable → List Instant
  | [], _ => []
  | x :: ops, t => (if P t x.2 then [x.1] else []) ++ Timed.times P ops (x.2.apply x.1 t)

/-- When the session `s` was inserted. -/
def Timed.insertions (ops : Timed) (s : UInt64) : List Instant :=
  ops.times (fun _ o => o.inserts s) Table.empty

/-- When a lookup found the session `s`. -/
def Timed.hits (ops : Timed) (s : UInt64) : List Instant :=
  ops.times (fun t o => o.finds s t) Table.empty

/-- When the session `s` was active: it was inserted, or a lookup found it. -/
def Timed.activities (ops : Timed) (s : UInt64) : List Instant :=
  ops.times (fun t o => o.inserts s || o.finds s t) Table.empty

/-- The clock does not run backwards, and it shows `now` at the end. -/
structure Timed.Ordered (ops : Timed) (now : Instant) : Prop where
  sorted : (ops.map Prod.fst).Pairwise (· ≤ ·)
  past : ∀ x ∈ ops, x.1 ≤ now

/-! ### Times of operations -/

variable {P Q : SessionTable → SessionOp → Bool} {ops : Timed} {t : SessionTable} {s : UInt64}
  {now : Instant}

lemma Timed.times_append (P : SessionTable → SessionOp → Bool) (ops ops' : Timed)
    (t : SessionTable) : Timed.times P (ops ++ ops') t =
      Timed.times P ops t ++ Timed.times P ops' (ops.foldl (fun t x => x.2.apply x.1 t) t) := by
  induction ops generalizing t with
  | nil => rfl
  | cons x ops ih => simp [Timed.times, ih]

lemma Timed.times_sublist (P : SessionTable → SessionOp → Bool) (ops : Timed) (t : SessionTable) :
    (Timed.times P ops t).Sublist (ops.map Prod.fst) := by
  induction ops generalizing t with
  | nil => exact .slnil
  | cons x ops ih =>
    unfold Timed.times
    split
    · exact (ih _).cons_cons x.1
    · exact (ih _).cons x.1

lemma Timed.mem_times_or {x : Instant} :
    x ∈ Timed.times (fun t o => P t o || Q t o) ops t ↔
      x ∈ Timed.times P ops t ∨ x ∈ Timed.times Q ops t := by
  induction ops generalizing t with
  | nil => simp [Timed.times]
  | cons y ops ih =>
    simp only [Timed.times, List.mem_append, ih]
    by_cases hP : P t y.2 = true
    · by_cases hQ : Q t y.2 = true <;> simp only [hP, hQ, Bool.or_self, Bool.or_false, if_true] <;>
        tauto
    · by_cases hQ : Q t y.2 = true <;> simp only [hP, hQ, Bool.or_true, Bool.or_self] <;> tauto

lemma Timed.Ordered.le_last (h : ops.Ordered now) {a x : Instant}
    (ha : (Timed.times P ops t).getLast? = some a) (hx : x ∈ Timed.times P ops t) : x ≤ a := by
  obtain ⟨l, hl⟩ := List.getLast?_eq_some_iff.mp ha
  have hsorted : (Timed.times P ops t).Pairwise (· ≤ ·) :=
    h.sorted.sublist (Timed.times_sublist P ops t)
  rw [hl] at hx hsorted
  rcases List.mem_append.mp hx with hx | hx
  · exact (List.pairwise_append.mp hsorted).2.2 x hx a (by simp)
  · rw [List.mem_singleton.mp hx]

/-- A session in the table bears the time of its last insertion. -/
lemma lastActivity_eq {info : SessionInfo} (hget : ops.table.get s = some info) :
    (ops.insertions s).getLast? = some info.lastActivity := by
  induction ops using List.reverseRecOn generalizing info with
  | nil => simp [Timed.table] at hget
  | append_singleton ops x ih =>
    obtain ⟨τ, o⟩ := x
    have htable : Timed.table (ops ++ [(τ, o)]) = o.apply τ (Timed.table ops) := by
      simp [Timed.table]
    have htimes : Timed.insertions (ops ++ [(τ, o)]) s =
        Timed.insertions ops s ++ if o.inserts s then [τ] else [] := by
      simp [Timed.insertions, Timed.times_append, Timed.times]
    rw [htable] at hget
    rw [htimes]
    cases o with
    | insert s' u a =>
      simp only [SessionOp.apply, SessionTable.insert, Table.get_insert] at hget
      by_cases hs : s = s'
      · simp only [hs, if_true, Option.some.injEq] at hget
        simp [SessionOp.inserts, hs, ← hget]
      · rw [if_neg hs] at hget
        simp [SessionOp.inserts, Ne.symm hs, ih hget]
    | lookup s' => simpa [SessionOp.inserts] using ih hget
    | lookupFull s' => simpa [SessionOp.inserts] using ih hget
    | remove s' =>
      simp only [SessionOp.apply, SessionTable.remove, Table.get_remove] at hget
      by_cases hs : s = s'
      · simp [hs] at hget
      · rw [if_neg hs] at hget
        simpa [SessionOp.inserts] using ih hget

/-! ### What the cleanup retains -/

/-- The cleanup retains just the sessions whose last activity is less than `timeout` ago, and
these as they are. -/
def SparesActive (ops : Timed) (now : Instant) (timeout : Duration) : Prop :=
  ∀ s info, (ops.table.cleanupIdle now timeout).get s = some info ↔
    ops.table.get s = some info ∧
      ∃ a, (ops.activities s).getLast? = some a ∧ now - a < timeout

/-- No session that was last inserted at least `timeout` ago has been found since. -/
def LastFoundBefore (ops : Timed) (now : Instant) (timeout : Duration) : Prop :=
  ∀ s i, (ops.table.get s).isSome → (ops.insertions s).getLast? = some i → timeout ≤ now - i →
    ∀ x ∈ ops.hits s, timeout ≤ now - x

lemma get_cleanupIdle_iff (t : SessionTable) (now : Instant) (timeout : Duration) (s : UInt64)
    (info : SessionInfo) : (t.cleanupIdle now timeout).get s = some info ↔
      t.get s = some info ∧ now - info.lastActivity < timeout := by
  simp [SessionTable.cleanupIdle, Table.get_retain, Option.filter_eq_some_iff]

lemma young_of_le {now i a timeout : ℕ} (h : i ≤ a) (hyoung : now - i < timeout) :
    now - a < timeout := by
  omega

/-- The last activity of a session in the table is its last insertion or a later hit. -/
lemma exists_lastActivity (h : ops.Ordered now) {i : Instant}
    (hi : (ops.insertions s).getLast? = some i) :
    ∃ a, (ops.activities s).getLast? = some a ∧ i ≤ a ∧ (∀ x ∈ ops.hits s, x ≤ a) ∧
      (a ≤ i ∨ a ∈ ops.hits s) := by
  have hmem : ∀ x, x ∈ ops.activities s ↔ x ∈ ops.insertions s ∨ x ∈ ops.hits s :=
    fun x => Timed.mem_times_or
  have hact : i ∈ ops.activities s := (hmem i).mpr (.inl (List.mem_of_getLast? hi))
  obtain ⟨a, ha⟩ := Option.isSome_iff_exists.mp
    (List.getLast?_isSome.mpr (List.ne_nil_of_mem hact))
  refine ⟨a, ha, h.le_last ha hact, fun x hx => h.le_last ha ((hmem x).mpr (.inr hx)), ?_⟩
  exact ((hmem a).mp (List.mem_of_getLast? ha)).imp_left fun hins => h.le_last hi hins

/-- Idle cleanup spares the active sessions exactly if lookups do not matter: no session last
inserted at least `timeout` ago has been found since. -/
theorem sparesActive_iff (h : ops.Ordered now) (timeout : Duration) :
    SparesActive ops now timeout ↔ LastFoundBefore ops now timeout := by
  constructor
  · intro hspares s i hpresent hi hold x hx
    obtain ⟨info, hget⟩ := Option.isSome_iff_exists.mp hpresent
    obtain rfl : info.lastActivity = i := Option.some.inj ((lastActivity_eq hget).symm.trans hi)
    obtain ⟨a, ha, _, hhits, _⟩ := exists_lastActivity h hi
    by_contra hrecent
    have hxa := hhits x hx
    have hkept := (hspares s info).mpr ⟨hget, a, ha, young_of_le hxa (Nat.not_le.mp hrecent)⟩
    have hyoung := ((get_cleanupIdle_iff _ _ _ _ _).mp hkept).2
    exact Nat.not_lt.mpr hold hyoung
  · intro hbefore s info
    rw [get_cleanupIdle_iff]
    refine and_congr_right fun hget => ?_
    have hi := lastActivity_eq hget
    obtain ⟨a, ha, hia, _, hlast⟩ := exists_lastActivity h hi
    constructor
    · intro hyoung
      exact ⟨a, ha, young_of_le hia hyoung⟩
    · rintro ⟨a', ha', hyoung⟩
      obtain rfl : a = a' := Option.some.inj (ha.symm.trans ha')
      rcases hlast with hle | hhit
      · exact young_of_le hle hyoung
      · by_contra hold
        have hfound := hbefore s info.lastActivity (by simp [hget]) hi (Nat.not_lt.mp hold) a hhit
        exact Nat.not_lt.mpr hfound hyoung

/-- A session inserted at the start and looked up after 90 s. -/
def lookedUp : Timed :=
  [(0, .insert 7 (.v4 1 8805) (.v4 9 8805)), (fromSecs 90, .lookup 7)]

lemma lookedUp_ordered : lookedUp.Ordered (fromSecs 100) := ⟨by decide, by decide⟩

/-- With a timeout of 60 s it is evicted 10 s later. -/
theorem sparesActive_fails : ¬SparesActive lookedUp (fromSecs 100) (fromSecs 60) := by
  intro hspares
  have hkept := (hspares 7 ⟨.v4 1 8805, .v4 9 8805, 0, 0⟩).mpr
    ⟨by decide, fromSecs 90, by decide, by decide⟩
  exact absurd hkept (by decide)

/-- With one of 120 s it stays. -/
theorem sparesActive_lookedUp : SparesActive lookedUp (fromSecs 100) (fromSecs 120) :=
  (sparesActive_iff lookedUp_ordered (fromSecs 120)).mpr fun _ _ _ _ hold =>
    absurd (hold.trans (Nat.sub_le _ _)) (by decide)

end PfcpProxy
