import PfcpProxy.ControlFile

/-!
# Commands that are read again

Dividing the last size by 20 may give less lines than have been read; the commands in between are
then called again. Calls for one address overwrite each other, so this does not matter for the
members of the pool, as long as there is room in it and no command is skipped.
-/

namespace PfcpProxy

open Text LogFollower

/-- The address that a call adds or removes. -/
def PoolCall.member : PoolCall → Option SocketAddr
  | .addBackend a => some a
  | .removeBackend a => some a
  | .updateHealth _ _ => none

/-! ### Members -/

namespace UpfPool

variable {p p' : UpfPool} {calls : List PoolCall} {added : List SocketAddr}

lemma afterCalls_snoc (p : UpfPool) (calls : List PoolCall) (call : PoolCall) :
    p.afterCalls (calls ++ [call]) = call.apply (p.afterCalls calls) := by
  simp [afterCalls, List.foldl_append]

lemma afterCalls_maxBackends (p : UpfPool) (calls : List PoolCall) :
    (p.afterCalls calls).maxBackends = p.maxBackends := by
  induction calls using List.reverseRecOn with
  | nil => rfl
  | append_singleton calls call ih => rw [afterCalls_snoc, apply_maxBackends, ih]

lemma mem_addBackend_iff (p : UpfPool) (a b : SocketAddr) :
    a ∈ ((PoolCall.addBackend b).apply p).addrs ↔
      a ∈ p.addrs ∨ a = b ∧ p.backends.length < p.maxBackends := by
  rw [PoolCall.apply, addrs_addBackend]
  split
  next h => simp [h.1]
  next h =>
    by_cases hb : b ∈ p.addrs
    · constructor
      · exact Or.inl
      · rintro (ha | ⟨rfl, _⟩)
        · exact ha
        · exact hb
    · simp_all

/-- There is room for all of these, even if nothing is removed. -/
def HasRoom (p : UpfPool) (added : List SocketAddr) : Prop :=
  p.addrs.length + added.length ≤ p.maxBackends

/-- No address comes up more often than in the pool at first and among those that are added. -/
lemma count_afterCalls_le (hadded : ∀ a, .addBackend a ∈ calls → a ∈ added) (x : SocketAddr) :
    (p.afterCalls calls).addrs.count x ≤ (p.addrs ++ added).count x := by
  induction calls using List.reverseRecOn with
  | nil =>
    rw [List.count_append]
    exact Nat.le_add_right _ _
  | append_singleton calls call ih =>
    have hbefore := ih fun a ha => hadded a (List.mem_append_left _ ha)
    rw [afterCalls_snoc]
    cases call with
    | addBackend a =>
      rw [PoolCall.apply, addrs_addBackend]
      split
      next hnew =>
        by_cases hx : x = a
        · subst hx
          have hmem : x ∈ added := hadded x (List.mem_append_right _ (List.mem_singleton_self _))
          have hpos : 0 < added.count x := List.count_pos_iff.mpr hmem
          simp only [List.count_append, List.count_eq_zero.mpr hnew.2, List.count_singleton_self]
          omega
        · simpa [List.count_append, List.count_singleton, Ne.symm hx] using hbefore
      next => exact hbefore
    | removeBackend a =>
      rw [PoolCall.apply, addrs_removeBackend]
      exact (List.filter_sublist.count_le x).trans hbefore
    | updateHealth a st =>
      rw [PoolCall.apply, addrs_updateHealth]
      exact hbefore

lemma room_afterCalls (hroom : p.HasRoom added)
    (hadded : ∀ a, .addBackend a ∈ calls → a ∈ added) {a : SocketAddr} (ha : a ∈ added)
    (hnew : a ∉ (p.afterCalls calls).addrs) :
    (p.afterCalls calls).backends.length < (p.afterCalls calls).maxBackends := by
  have hsub : List.Subperm (a :: (p.afterCalls calls).addrs) (p.addrs ++ added) := by
    rw [List.subperm_ext_iff]
    intro x _
    have hle := count_afterCalls_le (p := p) hadded x
    by_cases hx : a = x
    · subst hx
      have hpos : 0 < (p.addrs ++ added).count a :=
        List.count_pos_iff.mpr (List.mem_append_right _ ha)
      rw [List.count_cons_self, List.count_eq_zero.mpr hnew]
      omega
    · rwa [List.count_cons_of_ne hx]
  have hlength := hsub.length_le
  rw [List.length_cons, List.length_append, length_addrs] at hlength
  rw [afterCalls_maxBackends]
  unfold HasRoom at hroom
  omega

/-- With room in the pool, the last call for an address decides whether it is a member. -/
theorem mem_afterCalls_iff (hroom : p.HasRoom added)
    (hadded : ∀ a, .addBackend a ∈ calls → a ∈ added) (a : SocketAddr) :
    a ∈ (p.afterCalls calls).addrs ↔
      (lastWrite PoolCall.member calls (some a)).elim (a ∈ p.addrs) (· = .addBackend a) := by
  induction calls using List.reverseRecOn with
  | nil => rfl
  | append_singleton calls call ih =>
    have hbefore : ∀ a, .addBackend a ∈ calls → a ∈ added := fun a ha =>
      hadded a (List.mem_append_left _ ha)
    have hlast := ih hbefore
    rw [afterCalls_snoc, lastWrite_append, lastWrite_singleton]
    cases call with
    | addBackend b =>
      have hb : b ∈ added := hadded b (List.mem_append_right _ (List.mem_singleton_self _))
      rw [mem_addBackend_iff, hlast]
      by_cases hab : b = a
      · subst hab
        by_cases hnew : b ∈ (p.afterCalls calls).addrs
        · simp [PoolCall.member, hlast.mp hnew]
        · simp [PoolCall.member, room_afterCalls hroom hbefore hb hnew]
      · simp [PoolCall.member, hab, Ne.symm hab]
    | removeBackend b =>
      rw [PoolCall.apply, addrs_removeBackend, List.mem_filter, hlast]
      by_cases hab : b = a
      · simp [PoolCall.member, hab]
      · simp [PoolCall.member, hab, Ne.symm hab]
    | updateHealth b st =>
      rw [PoolCall.apply, addrs_updateHealth, hlast]
      simp [PoolCall.member]

end UpfPool

/-! ### The monitor -/

/-- What the commands add. -/
def additions (commands : List Command) : List SocketAddr :=
  (commands.filter (·.action = .add)).map (·.addr)

lemma mem_additions {commands : List Command} {a : SocketAddr}
    (h : .addBackend a ∈ commands.map Command.call) : a ∈ additions commands := by
  obtain ⟨command, hmem, hcall⟩ := List.mem_map.mp h
  unfold Command.call at hcall
  cases haction : command.action with
  | add =>
    rw [haction] at hcall
    cases hcall
    exact List.mem_map.mpr ⟨command, List.mem_filter.mpr ⟨hmem, by simp [haction]⟩, rfl⟩
  | remove =>
    rw [haction] at hcall
    cases hcall

namespace Monitor

variable {p₀ : UpfPool}

/-- Under each address the last call made is that of the last command that has been seen. -/
def SettledCalls (s : Monitor) : Prop :=
  Settled PoolCall.member (s.appended.map Command.call) s.calls s.seen

/-- A reading that skips no command it has not seen keeps the calls settled. -/
lemma SettledCalls.step {s : Monitor} (hs : s.SettledCalls) (hc : Consistent p₀ s)
    {st : MonitorStep}
    (hst : st = .read true → s.currentSize ≠ none → s.lastSize / 20 ≤ s.seen) :
    (s.step st).SettledCalls := by
  cases st with
  | append command =>
    have happ := hs.append [command.call]
    simpa only [SettledCalls, Monitor.step, List.map_append, List.map_singleton] using happ
  | metadata ok =>
    unfold Monitor.step
    dsimp only
    split
    · exact hs
    · exact hs
  | read ok =>
    unfold Monitor.step
    dsimp only
    split
    · exact hs
    rename_i size hsize
    split
    · rename_i hok
      have hresume := hs.resume (hst (by rw [hok]) (by rw [hsize]; simp))
      rw [← hc.newCalls, List.length_map] at hresume
      exact hresume
    · exact hs
  | updateHealth addr status => exact hs

/-- Where the calls are settled and the whole file has been seen, the pool has the members that the
commands leave. -/
lemma SettledCalls.mem_iff {s : Monitor} (hs : s.SettledCalls) (hc : Consistent p₀ s)
    (hseen : s.SeenAll) (hroom : p₀.HasRoom (additions s.appended)) (a : SocketAddr) :
    a ∈ s.upfPool.addrs ↔ a ∈ (p₀.afterCalls (s.appended.map Command.call)).addrs := by
  have hlast := hs.all (by rw [List.length_map]; exact hseen) (some a)
  have hadded : ∀ b, .addBackend b ∈ s.calls → b ∈ additions s.appended := fun b hb =>
    mem_additions (hs.mem _ hb)
  rw [hc.upfPool.1, UpfPool.mem_afterCalls_iff hroom hadded,
    UpfPool.mem_afterCalls_iff hroom (fun _ => mem_additions), hlast]

end Monitor

/-! ### Short lines -/

/-- From the start of the file on, a line has 20 bytes on average at most, its end included, but
for the bytes of one line. -/
def ShortLines (commands : List Command) : Prop :=
  ∀ n ≤ commands.length, byteLen (controlFile (commands.take n)) < 20 * (n + 1)

instance : DecidablePred ShortLines := fun commands =>
  inferInstanceAs (Decidable (∀ n ≤ commands.length, _ < _))

section Runs

variable {p₀ : UpfPool} {steps : List MonitorStep}

/-- The sizes that the monitor has noted do not lead it past what it has seen. -/
structure Monitor.Behind (s : Monitor) : Prop where
  lastSize : s.lastSize / 20 ≤ s.seen
  currentSize : ∀ size ∈ s.currentSize, size / 20 ≤ s.appended.length
  seen : s.seen ≤ s.appended.length

lemma Monitor.appended_step_of_ne (s : Monitor) {st : MonitorStep}
    (hst : ∀ command, st ≠ .append command) : (s.step st).appended = s.appended := by
  cases st with
  | append command => exact absurd rfl (hst command)
  | metadata ok =>
    unfold Monitor.step
    dsimp only
    split <;> rfl
  | read ok =>
    unfold Monitor.step
    dsimp only
    split
    · rfl
    · split <;> rfl
  | updateHealth addr status => rfl

lemma appended_of_append (x y : List MonitorStep) :
    (Monitor.after p₀ x).appended <+: (Monitor.after p₀ (x ++ y)).appended := by
  induction y using List.reverseRecOn with
  | nil => simp
  | append_singleton y st ih =>
    rw [← List.append_assoc, Monitor.after_snoc]
    apply ih.trans
    by_cases hst : ∀ command, st ≠ .append command
    · rw [Monitor.appended_step_of_ne _ hst]
    · push Not at hst
      obtain ⟨command, rfl⟩ := hst
      exact List.prefix_append _ _

lemma ShortLines.initial {commands commands' : List Command} (h : ShortLines commands')
    (hinit : commands <+: commands') : ShortLines commands := by
  obtain ⟨rest, rfl⟩ := hinit
  intro n hn
  have hshort := h n (by rw [List.length_append]; omega)
  rwa [List.take_append_of_le_length hn] at hshort

lemma Monitor.Behind.step {s : Monitor} (h : s.Behind) (hc : Consistent p₀ s)
    (hshort : ShortLines s.appended) {st : MonitorStep} (hst : st ≠ .read false) :
    (s.step st).Behind := by
  obtain ⟨hlast, hcurrent, hseen⟩ := h
  cases st with
  | append command =>
    have hlength : (s.appended ++ [command]).length = s.appended.length + 1 := by simp
    refine ⟨hlast, fun size hsize => ?_, ?_⟩
    · have hle := hcurrent size hsize
      simp only [Monitor.step, hlength]
      omega
    · simp only [Monitor.step, hlength]
      omega
  | metadata ok =>
    unfold Monitor.step
    dsimp only
    split
    · refine ⟨hlast, fun size hsize => ?_, hseen⟩
      cases hsize
      have hbytes := hshort s.appended.length (Nat.le_refl _)
      rw [List.take_length, ← hc.contents] at hbytes
      dsimp only
      omega
    · exact ⟨hlast, hcurrent, hseen⟩
  | read ok =>
    cases ok with
    | false => exact absurd rfl hst
    | true =>
      unfold Monitor.step
      dsimp only
      split
      · exact ⟨hlast, hcurrent, hseen⟩
      · rename_i size hsize
        exact ⟨hcurrent size hsize, by simp, Nat.le_refl _⟩
  | updateHealth addr status => exact ⟨hlast, hcurrent, hseen⟩

lemma Monitor.behind_start : (Monitor.start p₀).Behind :=
  ⟨by simp [Monitor.start], by simp [Monitor.start], by simp [Monitor.start]⟩

lemma settled_after (hreads : .read false ∉ steps)
    (hshort : ShortLines (Monitor.after p₀ steps).appended) :
    (Monitor.after p₀ steps).SettledCalls ∧ (Monitor.after p₀ steps).Behind := by
  induction steps using List.reverseRecOn with
  | nil => exact ⟨settled_nil, Monitor.behind_start⟩
  | append_singleton steps st ih =>
    have hshort' := hshort.initial (appended_of_append steps [st])
    obtain ⟨hsettled, hbehind⟩ := ih (fun h => hreads (List.mem_append_left _ h)) hshort'
    have hc : Monitor.Consistent p₀ (Monitor.after p₀ steps) := Monitor.consistent_after steps
    have hst : st ≠ .read false := by
      rintro rfl
      exact hreads (List.mem_append_right _ (List.mem_singleton_self _))
    rw [Monitor.after_snoc]
    exact ⟨hsettled.step hc fun _ _ => hbehind.lastSize, hbehind.step hc hshort' hst⟩

/-- Reading commands again does no harm: in every run without a failing read, in which lines have
20 bytes on average and the pool has room, the pool has exactly the members that the commands
leave, each called once and in file order, whenever the whole file has been seen. -/
theorem control_file_converges (p₀ : UpfPool) (steps : List MonitorStep)
    (hreads : .read false ∉ steps) (hshort : ShortLines (Monitor.after p₀ steps).appended)
    (hroom : p₀.HasRoom (additions (Monitor.after p₀ steps).appended))
    (hseen : (Monitor.after p₀ steps).SeenAll) (addr : SocketAddr) :
    addr ∈ (Monitor.after p₀ steps).upfPool.addrs ↔
      addr ∈ (p₀.afterCalls ((Monitor.after p₀ steps).appended.map Command.call)).addrs :=
  (settled_after hreads hshort).1.mem_iff (Monitor.consistent_after steps) hseen hroom addr

end Runs

def removeShort : Command := { addShort with action := .remove }

/-- The second reading calls the last addition again, before the removal. -/
def rereadingSteps : List MonitorStep :=
  [.append addShort, .append removeShort, .append addShort, .metadata true, .read true,
    .append removeShort, .metadata true, .read true]

theorem control_file_converges_rereading :
    let p₀ := UpfPool.new [.v4 0x0a000001 8805] .roundRobin
    .v4 0x0a000002 8805 ∈ (Monitor.after p₀ rereadingSteps).upfPool.addrs ↔
      .v4 0x0a000002 8805 ∈
        (p₀.afterCalls ((Monitor.after p₀ rereadingSteps).appended.map Command.call)).addrs :=
  control_file_converges (UpfPool.new [.v4 0x0a000001 8805] .roundRobin) rereadingSteps
    (by simp [rereadingSteps])
    (by decide +kernel) (show _ ≤ _ by decide +kernel) (by decide +kernel) _

end PfcpProxy
