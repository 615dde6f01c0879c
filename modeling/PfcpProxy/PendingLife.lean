import PfcpProxy.Histories
import PfcpProxy.Pending
import Mathlib.Data.List.DropRight

/-!
# How long requests stay pending

The cleanup task removes what is 60 s old, and it runs at least every 30 s: no pending entry
becomes 90 s old, and none is removed by it before it is 60 s old.
-/

namespace PfcpProxy

open AtomicTasks

/-! ### Time in a history -/

/-- How far an entry of a history moves the clock on. -/
def Event.span : Event Op.Res Proxy Datagram Env → ℕ
  | .env (.tick d) _ => d
  | _ => 0

/-- The time a history takes. -/
def elapsed (hist : History) : ℕ := (hist.map Event.span).sum

def Event.isCleanup : Event Op.Res Proxy Datagram Env → Bool
  | .env .cleanupStale _ => true
  | _ => false

/-- The sequence number an entry of a history makes pending. -/
def Event.inserted : Event Op.Res Proxy Datagram Env → Option UInt32
  | .act _ ⟨.pendingInsert q _ _ _, _⟩ _ => some q
  | _ => none

/-- The cleanup task runs at least once in every stretch longer than `d`. -/
def CleanedEvery (d : ℕ) (hist : History) : Prop :=
  ∀ x y z, hist = x ++ y ++ z → (∀ e ∈ y, Event.isCleanup e = false) → elapsed y ≤ d

/-- The time since the cleanup task last ran. -/
def sinceCleanup (hist : History) : ℕ := elapsed (hist.rtakeWhile fun e => !Event.isCleanup e)

/-- The sequence numbers that were made pending less than `d` ago. -/
def insertedWithin (d : ℕ) : History → Finset UInt32
  | [] => ∅
  | e :: rest =>
    (if elapsed rest < d then (Event.inserted e).toFinset else ∅) ∪ insertedWithin d rest

variable {p₀ : Proxy} {hist : History} {c c' : Config Op.Res Proxy Datagram} {q : UInt32}

@[simp] lemma elapsed_append (h h' : History) : elapsed (h ++ h') = elapsed h + elapsed h' := by
  simp [elapsed]

@[simp] lemma elapsed_cons (e : Event Op.Res Proxy Datagram Env) (h : History) :
    elapsed (e :: h) = Event.span e + elapsed h := by
  simp [elapsed]

@[simp] lemma elapsed_nil : elapsed [] = 0 := rfl

lemma now_of_step {e : Event Op.Res Proxy Datagram Env} (hs : Step proxy c e c') :
    c'.shared.now = c.shared.now + Event.span e := by
  cases hs with
  | recv d => rfl
  | act i d o k w hi => exact exec_now o w c.shared
  | env e => cases e <;> rfl

lemma sinceCleanup_snoc (hist : History) (e : Event Op.Res Proxy Datagram Env) :
    sinceCleanup (hist ++ [e]) =
      if Event.isCleanup e then 0 else sinceCleanup hist + Event.span e := by
  unfold sinceCleanup
  cases he : Event.isCleanup e with
  | true =>
    rw [List.rtakeWhile_concat_neg _ _ _ (by simp [he])]
    rfl
  | false =>
    rw [List.rtakeWhile_concat_pos _ _ _ (by simp [he])]
    simp

lemma CleanedEvery.since {d : ℕ} (h : CleanedEvery d hist) : sinceCleanup hist ≤ d := by
  apply h (hist.rdropWhile fun e => !Event.isCleanup e) _ []
  · rw [List.append_nil, List.rdropWhile_append_rtakeWhile]
  · intro e he
    simpa using List.mem_rtakeWhile_imp he

lemma mem_insertedWithin {d : ℕ} {x y : History} {e : Event Op.Res Proxy Datagram Env}
    (he : Event.inserted e = some q) (hy : elapsed y < d) :
    q ∈ insertedWithin d (x ++ e :: y) := by
  induction x with
  | nil => simp [insertedWithin, hy, he]
  | cons e' x ih => simp [insertedWithin, ih]

/-! ### The age of an entry -/

/-- Where an entry comes from: it has just been inserted, or it was there before with the same
timestamp, and then the cleanup task has found it young. -/
lemma entry_step {e : Event Op.Res Proxy Datagram Env} (hs : Step proxy c e c')
    {info : RequestInfo} (hget : c'.shared.pendingRequests.get q = some info) :
    (Event.inserted e = some q ∧ info.timestamp = c.shared.now) ∨
      (Event.inserted e ≠ some q ∧
        (∃ info', c.shared.pendingRequests.get q = some info' ∧ info'.timestamp = info.timestamp) ∧
        (Event.isCleanup e = true → c.shared.now < info.timestamp + fromSecs 60)) := by
  cases hs with
  | recv d => exact .inr ⟨by simp [Event.inserted], ⟨info, hget, rfl⟩, by simp [Event.isCleanup]⟩
  | env e =>
    refine .inr ⟨by simp [Event.inserted], ⟨info, get_of_envStep hget, rfl⟩, fun he => ?_⟩
    cases e with
    | cleanupStale =>
      simp only [proxy, envStep, PendingRequests.cleanupStale, Table.get_retain,
        Option.filter_eq_some_iff, decide_eq_true_eq] at hget
      exact lt_add_of_tsub_lt_left hget.2
    | _ => cases he
  | act i d o k w hi =>
    by_cases ho : o.pendingKey = some q
    · cases o with
      | pendingInsert q' a b f =>
        obtain rfl : q' = q := by simpa [Op.pendingKey] using ho
        simp only [proxy, exec, PendingRequests.insert, Table.get_insert_self,
          Option.some.injEq] at hget
        exact .inl ⟨rfl, by rw [← hget]⟩
      | pendingLookupAndIncrement q' =>
        obtain rfl : q' = q := by simpa [Op.pendingKey] using ho
        simp only [proxy, exec, PendingRequests.lookupAndIncrement, Table.get_modify_self,
          Option.map_eq_some_iff] at hget
        obtain ⟨info', hget', rfl⟩ := hget
        exact .inr ⟨by simp [Event.inserted], ⟨info', hget', rfl⟩, by simp [Event.isCleanup]⟩
      | pendingRemove q' =>
        obtain rfl : q' = q := by simpa [Op.pendingKey] using ho
        simp [proxy, exec, PendingRequests.remove] at hget
      | _ => cases ho
    · have hne : Event.inserted (.act i ⟨o, (proxy.exec o w c.shared).1⟩ c.shared :
          Event Op.Res Proxy Datagram Env) ≠ some q := by
        cases o <;> simp_all [Event.inserted, Op.pendingKey]
      refine .inr ⟨hne, ⟨info, ?_, rfl⟩, by simp [Event.isCleanup]⟩
      rw [← hget]
      exact (exec_pending_of_ne ho _ _).symm

lemma span_of_inserted {e : Event Op.Res Proxy Datagram Env} (h : Event.inserted e = some q) :
    Event.span e = 0 ∧ Event.isCleanup e = false := by
  cases e with
  | act i a pre => exact ⟨rfl, rfl⟩
  | recv i d => cases h
  | env e pre => cases h

/-- An entry outgrows 60 s only since the cleanup task last ran. -/
lemma entry_age (hp₀ : p₀.pendingRequests = Table.empty) (hr : Run proxy p₀ hist c)
    {info : RequestInfo} (hget : c.shared.pendingRequests.get q = some info) :
    c.shared.now < info.timestamp + fromSecs 60 + sinceCleanup hist := by
  induction hr generalizing info with
  | nil => simp [hp₀] at hget
  | @snoc h c c' e hr hs ih =>
    have hpos : 0 < fromSecs 60 := by decide
    rw [now_of_step hs, sinceCleanup_snoc]
    rcases entry_step hs hget with ⟨hins, htime⟩ | ⟨_, ⟨info', hget', htime⟩, hyoung⟩
    · obtain ⟨hspan, hclean⟩ := span_of_inserted hins
      rw [htime, hspan, hclean, Nat.add_zero, Nat.add_assoc]
      exact Nat.lt_add_of_pos_right (Nat.add_pos_left hpos _)
    · have hage := ih hget'
      rw [htime] at hage
      cases he : Event.isCleanup e with
      | true =>
        have hspan : Event.span e = 0 := by
          cases e with
          | env e => cases e <;> first | rfl | cases he
          | _ => rfl
        rw [hspan, if_pos rfl, Nat.add_zero, Nat.add_zero]
        exact hyoung he
      | false =>
        rw [if_neg Bool.false_ne_true, ← Nat.add_assoc]
        exact Nat.add_lt_add_right hage _

/-- `e`, with `y` behind it, is the last entry of `hist` that makes `q` pending. -/
def LatestInsertion (q : UInt32) (hist : History) (e : Event Op.Res Proxy Datagram Env)
    (y : History) : Prop :=
  (∃ x, hist = x ++ e :: y) ∧ Event.inserted e = some q ∧ ∀ e' ∈ y, Event.inserted e' ≠ some q

lemma LatestInsertion.unique {e e' : Event Op.Res Proxy Datagram Env} {y y' : History}
    (h : LatestInsertion q hist e y) (h' : LatestInsertion q hist e' y') : y = y' := by
  obtain ⟨⟨x, hx⟩, he, hy⟩ := h
  obtain ⟨⟨x', hx'⟩, he', hy'⟩ := h'
  rw [hx] at hx'
  rcases List.append_eq_append_iff.mp hx' with ⟨z, rfl, hz⟩ | ⟨z, rfl, hz⟩
  · cases z with
    | nil => simpa using (List.cons.inj hz).2
    | cons e₁ z =>
      simp only [List.cons_append, List.cons.injEq] at hz
      exact absurd he' (hy e' (by rw [hz.2]; simp))
  · cases z with
    | nil => simpa using (List.cons.inj hz).2.symm
    | cons e₁ z =>
      simp only [List.cons_append, List.cons.injEq] at hz
      exact absurd he (hy' e (by rw [hz.2]; simp))

/-- A pending entry is as old as its latest insertion. -/
lemma latest_insertion (hp₀ : p₀.pendingRequests = Table.empty) (hr : Run proxy p₀ hist c)
    {info : RequestInfo} (hget : c.shared.pendingRequests.get q = some info) :
    ∃ e y, LatestInsertion q hist e y ∧ c.shared.now = info.timestamp + elapsed y := by
  induction hr generalizing info with
  | nil => simp [hp₀] at hget
  | @snoc h c c' e hr hs ih =>
    rw [now_of_step hs]
    rcases entry_step hs hget with ⟨hins, htime⟩ | ⟨hne, ⟨info', hget', htime⟩, _⟩
    · refine ⟨e, [], ⟨⟨h, rfl⟩, hins, by simp⟩, ?_⟩
      rw [htime, (span_of_inserted hins).1]
      rfl
    · obtain ⟨e₁, y, ⟨⟨x, rfl⟩, he₁, hy⟩, hnow⟩ := ih hget'
      refine ⟨e₁, y ++ [e], ⟨⟨x, by simp⟩, he₁, ?_⟩, ?_⟩
      · intro e' he'
        rcases List.mem_append.mp he' with he' | he'
        · exact hy e' he'
        · rwa [List.mem_singleton.mp he']
      · rw [hnow, htime, elapsed_append, elapsed_cons, elapsed_nil, Nat.add_zero, Nat.add_assoc]

/-- Pending entries have a bounded life and are not expired early. Where the cleanup task runs
at least every 30 s, every pending entry was last inserted less than 90 s ago, and there are
no more of them than sequence numbers inserted in that time; and no cleanup removes an entry
whose latest insertion is less than 60 s old. -/
theorem pending_life {backends : List SocketAddr} {strategy : LoadBalancingStrategy}
    (hr : Run proxy (Proxy.new backends strategy) hist c)
    (hclean : CleanedEvery (fromSecs 30) hist) :
    (∀ q info, c.shared.pendingRequests.get q = some info →
      ∃ e y, LatestInsertion q hist e y ∧ elapsed y < fromSecs 90) ∧
    c.shared.pendingRequests.len ≤ (insertedWithin (fromSecs 90) hist).card ∧
    (∀ x pre z, hist = x ++ .env .cleanupStale pre :: z →
      ∀ q info e y, pre.pendingRequests.get q = some info → LatestInsertion q x e y →
        elapsed y < fromSecs 60 →
        (envStep .cleanupStale pre).pendingRequests.get q = some info) := by
  have hage : ∀ q info, c.shared.pendingRequests.get q = some info →
      ∃ e y, LatestInsertion q hist e y ∧ elapsed y < fromSecs 90 := by
    intro q info hget
    obtain ⟨e, y, hlatest, hnow⟩ := latest_insertion rfl hr hget
    refine ⟨e, y, hlatest, ?_⟩
    have hlt := entry_age rfl hr hget
    have hsince := hclean.since
    rw [hnow, Nat.add_assoc] at hlt
    exact (Nat.lt_of_add_lt_add_left hlt).trans_le (Nat.add_le_add_left hsince _)
  refine ⟨hage, ?_, ?_⟩
  · apply Finset.card_le_card
    intro q hq
    obtain ⟨info, hget⟩ := Option.isSome_iff_exists.mp (Table.mem_keys.mp hq)
    obtain ⟨e, y, ⟨⟨x, rfl⟩, he, _⟩, hy⟩ := hage q info hget
    exact mem_insertedWithin he hy
  · rintro x pre z rfl q info e y hget hlatest hyoung
    obtain ⟨c₁, c₂, hr₁, hs, _⟩ := hr.split
    cases hs with
    | env _ =>
      obtain ⟨e', y', hlatest', hnow⟩ := latest_insertion rfl hr₁ hget
      obtain rfl := hlatest.unique hlatest'
      apply envStep_get hget
      have hsub : c₁.shared.now - info.timestamp = elapsed y := by rw [hnow, Nat.add_sub_cancel_left]
      exact hsub ▸ hyoung

lemma cleanedEvery_of_elapsed_le {d : ℕ} (h : elapsed hist ≤ d) : CleanedEvery d hist := by
  rintro x y z rfl _
  simp only [elapsed_append] at h
  omega

/-- A heartbeat that is not answered for 20 s. -/
def unansweredHeartbeat : History × Config Op.Res Proxy Datagram :=
  played [upfX] .roundRobin (oneByOne 0 [message .heartbeatRequest none 5 smfA] ++
    [.env (.tick (fromSecs 20)), .env .cleanupStale])

theorem pending_life_unanswered :
    unansweredHeartbeat.2.shared.pendingRequests.len ≤
      (insertedWithin (fromSecs 90) unansweredHeartbeat.1).card :=
  (pending_life (played_run _ _ _) (cleanedEvery_of_elapsed_le (by decide))).2.1

end PfcpProxy
