import PfcpProxy.Ownership

/-!
# Processes in runs of the manager

In a run whose steps are careful every process stays with the service at its address, and deleting
an UPF ends the processes that were started for it and no others.
-/

namespace PfcpProxy.Manager

open Conditions

/-! ### Requests -/

/-- Each live process is that of the service at its address and of no other one, and no service has
the pid of a process that was started for a different address. -/
def World.OwnsProcesses (w : World) : Prop :=
  (∀ p ∈ w.os.processes, p.alive = true → ∃ (i : ℕ) (s : ServiceInfo),
    w.app.services[i]? = some s ∧ s.addr = p.addr ∧
      ∀ (j : ℕ) (t : ServiceInfo), w.app.services[j]? = some t → (t.pid = some p.pid ↔ j = i)) ∧
  ∀ s ∈ w.app.services, ∀ p ∈ w.os.processes, s.pid = some p.pid → p.addr = s.addr

/-- Signals are only sent to processes for this address, and none of them is alive after that. -/
def EndsOnly (addr : List Char) (w w' : World) : Prop :=
  ∃ sent, w'.os.signals = w.os.signals ++ sent ∧
    (∀ signal ∈ sent, ∃ p ∈ w.os.processes, p.pid = signal.1 ∧ p.addr = addr) ∧
    ∀ p ∈ w'.os.processes, p.addr = addr → p.alive = false

/-- None of the services that are started together is starting already. -/
def World.NoneStarting (w : World) : Prop :=
  w.HasPrograms → ∀ i < 4, ∀ s ∈ w.app.services[i]?, s.status ≠ .starting

instance (w : World) : Decidable w.NoneStarting :=
  inferInstanceAs (Decidable (w.HasPrograms → ∀ i < 4, ∀ s ∈ w.app.services[i]?,
    s.status ≠ .starting))

/-- No service is started a second time before its status was followed; no UPF is added at the
address of the proxy; an UPF is deleted only if it is not starting and no UPF behind it has a
process; and no I/O operation fails where services are stopped or followed. -/
def Careful (w : World) : Request → Prop
  | .toggle i => ∀ s ∈ w.app.services[i]?, s.status ≠ .starting ∧ (s.status = .running → w.Calm)
  | .startAll => w.NoneStarting
  | .stopAll => w.Calm
  | .restartAll => w.Calm ∧ w.NoneStarting
  | .runTest => True
  | .addUpf => w.app.AcceptsInput → w.app.upfInput ≠ proxyAddr
  | .removeUpf =>
    w.Calm ∧ (∀ s ∈ w.app.services[w.app.selectedUpf + 1]?, s.status ≠ .starting) ∧
      ∀ s ∈ w.app.services.drop (w.app.selectedUpf + 2), s.pid = none
  | .selectUp => True
  | .selectDown => True
  | .refresh => w.Calm
  | .other => True

instance (w : World) : (request : Request) → Decidable (Careful w request)
  | .toggle i => inferInstanceAs (Decidable (∀ s ∈ w.app.services[i]?,
      s.status ≠ .starting ∧ (s.status = .running → w.Calm)))
  | .startAll => inferInstanceAs (Decidable w.NoneStarting)
  | .stopAll => inferInstanceAs (Decidable w.Calm)
  | .restartAll => inferInstanceAs (Decidable (w.Calm ∧ w.NoneStarting))
  | .runTest => .isTrue trivial
  | .addUpf => inferInstanceAs (Decidable (w.app.AcceptsInput → w.app.upfInput ≠ proxyAddr))
  | .removeUpf => inferInstanceAs (Decidable (w.Calm ∧
      (∀ s ∈ w.app.services[w.app.selectedUpf + 1]?, s.status ≠ .starting) ∧
        ∀ s ∈ w.app.services.drop (w.app.selectedUpf + 2), s.pid = none))
  | .selectUp => .isTrue trivial
  | .selectDown => .isTrue trivial
  | .refresh => inferInstanceAs (Decidable w.Calm)
  | .other => .isTrue trivial

section Requests

variable {w : World}

lemma Owned.select {stage : Stage} (h : Owned stage) (selectedUpf : ℕ) :
    Owned { stage with selectedUpf := selectedUpf } :=
  { h with }

lemma Owned.startAll {stage : Stage} (h : Owned stage) {is : List ℕ} (his : is.Nodup)
    (hidle : ∀ i ∈ is, ∀ s, stage.services[i]? = some s → s.status ≠ .starting) :
    Owned (is.foldl (fun stage i => stage.start i) stage) := by
  induction is generalizing stage with
  | nil => exact h
  | cons i is ih =>
    rw [List.nodup_cons] at his
    refine ih (h.start (hidle i List.mem_cons_self)) his.2 fun j hj s hs => ?_
    have hij : i ≠ j := by
      rintro rfl
      exact his.1 hj
    rw [start_getElem? stage hij] at hs
    exact hidle j (List.mem_cons_of_mem _ hj) s hs

lemma ensures_startAll_owned (h : Owned w.stage) (hidle : w.NoneStarting) :
    Ensures Manager.startAll (fun _ w' => Owned w'.stage) (fun _ _ => True) w := by
  have hbound : ∀ i ∈ [1, 2, 3, 0], i < 4 := by decide
  refine (ensures_startAll w).mono (fun _ w' h' => ?_) fun _ _ _ => trivial
  rw [h']
  split
  next hprograms =>
    refine h.startAll (by decide) fun i hi s hs => ?_
    exact hidle hprograms i (hbound i hi) s hs
  next => exact h

/-- What stopping the services keeps: processes are owned, and no service becomes starting. -/
def Stopping (w : World) (w' : World) : Prop :=
  Owned w'.stage ∧ w.CalmSince w' ∧
    ∀ i : ℕ, ∀ s ∈ w'.app.services[i]?, s.status = .starting → w.app.services[i]? = some s

lemma maintains_stopService (i : ℕ) :
    Maintains (Stopping w) (fun _ => True) (stopService i) := by
  intro w₁ h₁
  obtain ⟨howned, hsame, hstarting⟩ := h₁
  refine (ensures_stopService hsame.1 i (E := fun _ _ => False)).mono (fun _ w₂ h₂ => ?_)
    fun _ _ h => h.elim
  obtain ⟨hsame₂, sent, -, -, hstage⟩ := h₂
  refine ⟨?_, ⟨hsame₂.1, hsame₂.2.trans hsame.2⟩, fun j s hs hstatus => ?_⟩
  · rw [hstage]
    exact howned.stop i sent
  · have hs' : (w₁.stage.stop i sent).services[j]? = some s := by
      rw [← hstage]
      exact hs
    obtain hold | ⟨-, hstopped, -⟩ := stop_getElem? hs'
    · exact hstarting j s hold hstatus
    · rw [hstopped] at hstatus
      cases hstatus

lemma maintains_stopAll : Maintains (Stopping w) (fun _ => True) stopAll :=
  (maintains_stopService 0).bind fun _ =>
    (maintains_forM _ fun i _ => maintains_stopService i).bind fun _ =>
      maintains_modify fun _ h => h

lemma Owned.ownsProcesses (h : Owned w.stage) : w.OwnsProcesses := by
  constructor
  · intro p hp halive
    obtain ⟨s, hs, hpid⟩ := h.live p hp halive
    obtain ⟨i, hi⟩ := List.mem_iff_getElem?.mp hs
    refine ⟨i, s, hi, (h.process_addr hs hp hpid).symm, fun j t hj => ⟨fun ht => ?_, ?_⟩⟩
    · have hts := h.pid_inj (List.mem_of_getElem? hj) hs ht hpid
      rw [hts] at hj
      exact index_inj h.nodup_services hj hi
    · rintro rfl
      rw [show w.app.services[j]? = some s from hi, Option.some.injEq] at hj
      rw [← hj]
      exact hpid
  · intro s hs p hp hpid
    exact h.process_addr hs hp hpid

lemma ensures_stopServiceAt_calm (hw : w.Calm) (removed : List Char) :
    Ensures (stopServiceAt removed)
      (fun _ w' => (w'.stage = w.stage ∧ ∀ s ∈ w.app.services, s.addr ≠ removed) ∨
        ∃ i s sent, w.stage.services[i]? = some s ∧ s.addr = removed ∧ w.stage.SentTo i sent ∧
          w'.stage = w.stage.stop i sent) (fun _ _ => False) w := by
  unfold stopServiceAt
  rw [ensures_bind, ensures_get]
  split
  next hnone =>
    left
    refine ⟨rfl, fun s hs haddr => ?_⟩
    have hfind := List.findIdx?_eq_none_iff.mp hnone s hs
    simp [haddr] at hfind
  next i hidx =>
    obtain ⟨hi, haddr, -⟩ := List.findIdx?_eq_some_iff_getElem.mp hidx
    have hsome : w.stage.services[i]? = some w.app.services[i] := List.getElem?_eq_getElem hi
    have haddr' : w.app.services[i].addr = removed := by simpa using haddr
    rw [show w.app.services[i]? = some w.app.services[i] from hsome]
    dsimp only
    rw [ensures_ite]
    split
    next hrunning =>
      rw [ensures_ignoring]
      refine (ensures_stopService hw i (E := fun _ _ => False)).mono (fun _ w' h' => ?_)
        fun _ _ h => h.elim
      obtain ⟨-, sent, hsent, -, hstage⟩ := h'
      exact .inr ⟨i, _, sent, hsome, haddr', hsent, hstage⟩
    next hidle =>
      refine .inr ⟨i, _, [], hsome, haddr', by simp [Stage.SentTo], ?_⟩
      rw [Stage.stop, hsome]
      simp only [hidle, if_false]

/-- Only the process of a deleted entry is signalled, and it has ended. -/
lemma endsOnly_drop (h : Owned w.stage) {i : ℕ} {s : ServiceInfo}
    (hi : w.stage.services[i]? = some s) {sent : List (Pid × Bool)} (hsent : w.stage.SentTo i sent)
    {w' : World} (hsignals : w'.stage.signals = (w.stage.stop i sent).signals)
    (h' : Owned w'.stage) (hremoved : s.addr ∉ proxyAddr :: w'.stage.upfList) :
    EndsOnly s.addr w w' := by
  have hs : s ∈ w.stage.services := List.mem_of_getElem? hi
  have halive : ∀ p ∈ w'.os.processes, p.addr = s.addr → p.alive = false :=
    fun p hp hpa => h'.not_alive hremoved hp hpa
  obtain hnone | hsome := (stop_signals w.stage i sent).2
  · refine ⟨[], ?_, by simp, halive⟩
    rw [List.append_nil]
    exact hsignals.trans hnone
  · refine ⟨sent, hsignals.trans hsome, fun signal hsignal => ?_, halive⟩
    obtain ⟨t, ht, hpid⟩ := hsent signal hsignal
    rw [hi] at ht
    cases ht
    obtain ⟨p, hp, hpp, -, haddr⟩ := h.held s hs signal.1 hpid
    exact ⟨p, hp, hpp, haddr⟩

lemma ensures_removeUpf_owned (h : Owned w.stage) (hcareful : Careful w .removeUpf) :
    Ensures removeUpf
      (fun _ w' => Owned w'.stage ∧ ∀ removed, w.app.upfList[w.app.selectedUpf]? = some removed →
        EndsOnly removed w w') (fun _ _ => True) w := by
  obtain ⟨hw, hidle, hbehind⟩ := hcareful
  refine (ensures_removeUpf w).mono (fun _ w' h' => ?_) fun _ _ _ => trivial
  split at h'
  next hnone =>
    rw [h']
    refine ⟨h, fun removed hremoved => ?_⟩
    rw [hnone] at hremoved
    cases hremoved
  next removed hsel =>
    obtain ⟨w₁, hstop, hdrop⟩ := h'
    have hsel' : w.stage.upfList[w.app.selectedUpf]? = some removed := hsel
    obtain ⟨-, hmissing⟩ | ⟨i, s, sent, hi, rfl, hsent, h₁⟩ :=
      (ensures_stopServiceAt_calm (show w.shorten.Calm from hw) removed).of_ok hstop
    · obtain ⟨s, hs, haddr⟩ := h.exists_service hsel'
      exact absurd haddr (hmissing s (List.mem_of_getElem? hs))
    · have hi' : w.stage.services[i]? = some s := hi
      obtain rfl := h.index_of_addr hi' hsel'
      have h₂ : w₁.stage = { w.stage.stop (w.app.selectedUpf + 1) sent with
          upfList := w.stage.upfList.eraseIdx w.app.selectedUpf } :=
        h₁.trans (stop_upfList w.stage _ _ _)
      have howned : Owned w'.stage := by
        rw [hdrop]
        exact h.drop_stop s.addr sent hidle hbehind h₂
      refine ⟨howned, fun removed hremoved => ?_⟩
      rw [hsel] at hremoved
      cases hremoved
      refine endsOnly_drop h hi' hsent ?_ howned ?_
      · rw [hdrop, Stage.drop, h₂]
      · rw [hdrop, Stage.drop, h₂]
        exact h.removed_notMem hsel'

lemma ensures_toggleService_owned (h : Owned w.stage) {i : ℕ}
    (hcareful : Careful w (.toggle i)) :
    Ensures (toggleService i) (fun _ w' => Owned w'.stage) (fun _ _ => True) w := by
  unfold toggleService
  rw [ensures_bind, ensures_get]
  split
  next => trivial
  next s hs =>
    obtain ⟨hidle, hcalm⟩ := hcareful s (Option.mem_def.mpr hs)
    rw [ensures_ite]
    split
    next hrunning =>
      refine (ensures_stopService (hcalm hrunning) i (E := fun _ _ => True)).mono
        (fun _ w' h' => ?_) fun _ _ h => h
      obtain ⟨-, sent, -, -, hstage⟩ := h'
      rw [hstage]
      exact h.stop i sent
    next =>
      refine (ensures_startService i w).mono (fun _ w' h' => ?_) fun _ _ _ => trivial
      rw [h']
      refine h.start fun t ht => ?_
      rw [show w.stage.services[i]? = some s from hs, Option.some.injEq] at ht
      rw [← ht]
      exact hidle

lemma ensures_restartAll_owned (h : Owned w.stage) (hcareful : Careful w .restartAll) :
    Ensures restartAll (fun _ w' => Owned w'.stage) (fun _ _ => True) w := by
  obtain ⟨hcalm, hidle⟩ := hcareful
  unfold restartAll
  rw [ensures_bind]
  refine (maintains_stopAll w ⟨h, ⟨hcalm, rfl⟩, fun _ _ hs _ => hs⟩).mono (fun _ w₁ h₁ => ?_)
    fun _ _ _ => trivial
  obtain ⟨howned, hsame, hstarting⟩ := h₁
  refine ensures_startAll_owned howned fun hprograms i hi s hs hstatus => ?_
  have hprograms' : w.HasPrograms := by
    unfold World.HasPrograms Os.hasProgram at hprograms ⊢
    rwa [hsame.2] at hprograms
  exact hidle hprograms' i hi s (hstarting i s hs hstatus) hstatus

/-- A careful request keeps every process with its service. -/
lemma ensures_carryOut_owned (h : Owned w.stage) {request : Request}
    (hcareful : Careful w request) :
    Ensures (carryOut request) (fun _ w' => Owned w'.stage) (fun _ _ => True) w := by
  cases request with
  | toggle i => exact ensures_toggleService_owned h hcareful
  | startAll => exact ensures_startAll_owned h hcareful
  | stopAll =>
    exact (maintains_stopAll w ⟨h, ⟨hcareful, rfl⟩, fun _ _ hs _ => hs⟩).mono (fun _ _ h' => h'.1)
      fun _ _ _ => trivial
  | restartAll => exact ensures_restartAll_owned h hcareful
  | runTest =>
    unfold carryOut
    rw [ensures_bind, ensures_get]
    refine (ensures_runTest _ w).mono (fun _ w' h' => ?_) fun _ _ _ => trivial
    rw [h']
    exact h
  | addUpf =>
    refine (ensures_addUpf w).mono (fun _ w' h' => ?_) fun _ _ _ => trivial
    rw [h']
    split
    next haccepts => exact h.add (hcareful haccepts) haccepts.2.2
    next => exact h
  | removeUpf =>
    exact (ensures_removeUpf_owned h hcareful).mono (fun _ _ h' => h'.1) fun _ _ h => h
  | selectUp =>
    refine (ensures_selectUp w).mono (fun _ w' h' => ?_) fun _ _ _ => trivial
    rw [h']
    exact h.select _
  | selectDown =>
    refine (ensures_selectDown w).mono (fun _ w' h' => ?_) fun _ _ _ => trivial
    rw [h']
    exact h.select _
  | refresh => exact h.ensures_updateServiceStatus hcareful
  | other => exact h

end Requests

/-! ### Runs -/

/-- The manager has started nothing yet, and the pid files left from earlier runs are about
processes that have ended, whose ids are not given again. -/
structure Os.Fresh (os : Os) : Prop where
  processes : os.processes = []
  pidFiles : ∀ name pid, os.pidFiles.get name = some (some pid) →
    pid ∉ os.others ∧ ∀ n, os.pids n ≠ pid

/-- What every round asks for is careful. -/
def CarefulRun (w₀ : World) (rounds : List Round) : Prop :=
  ∀ x r y, rounds = x ++ r :: y → ∀ w, Continues w₀ x w →
    Careful (w.enter r) (w.app.request r.event)

/-- Whenever the status of the services has been followed, processes belong to the services at
their addresses, and whenever an UPF has been deleted, its processes and no others have ended. -/
def ProcessOwnership (w₀ : World) (rounds : List Round) : Prop :=
  (∀ x r y, rounds = x ++ r :: y → r.event = .refresh → ∀ w, Continues w₀ (x ++ [r]) w →
    w.OwnsProcesses) ∧
  ∀ x r y, rounds = x ++ r :: y → ∀ w w', Continues w₀ x w → r.run w = .ok () w' →
    w.app.request r.event = .removeUpf →
      ∀ removed, w.app.upfList[w.app.selectedUpf]? = some removed → EndsOnly removed w w'

section Runs

variable {w₀ w w' : World} {r : Round} {rounds : List Round}

lemma ensures_run_owned (h : Owned w.stage)
    (hcareful : Careful (w.enter r) (w.app.request r.event)) :
    Ensures r.run (fun _ w' => Owned w'.stage) (fun _ _ => True) w := by
  have hdo := ensures_carryOut_owned (w := w.enter r) h hcareful
  refine ensures_run hdo (fun w' _ h' => ?_) fun _ _ => trivial
  rw [h']
  exact h

lemma ensures_run_removeUpf (h : Owned w.stage) (hreq : w.app.request r.event = .removeUpf)
    (hcareful : Careful (w.enter r) .removeUpf) :
    Ensures r.run (fun _ w' => ∀ removed, w.app.upfList[w.app.selectedUpf]? = some removed →
      EndsOnly removed w w') (fun _ _ => True) w := by
  refine ensures_run ?_ (fun w' hother _ => ?_) fun _ _ => trivial
  · rw [hreq]
    exact (ensures_removeUpf_owned (w := w.enter r) h hcareful).mono (fun _ _ h' => h'.2)
      fun _ _ h' => h'
  · rw [hreq] at hother
    cases hother

lemma owned_start {os : Os} (hpids : Function.Injective os.pids) (hfresh : os.Fresh) :
    Owned (World.start os).stage := by
  have hnone : ∀ s ∈ (World.start os).stage.services, s.status = .stopped ∧ s.pid = none := by
    change ∀ s ∈ App.new.syncServicesWithUpfList.services, s.status = .stopped ∧ s.pid = none
    decide +kernel
  have hnodup : (proxyAddr :: App.new.upfList).Nodup := by decide +kernel
  have hsome : ∀ s ∈ (World.start os).stage.services, ∀ pid, s.pid ≠ some pid := by
    intro s hs pid
    rw [(hnone s hs).2]
    exact (Option.some_ne_none pid).symm
  have hprocesses : (World.start os).stage.processes = [] := hfresh.processes
  exact
    { labels := map_label_servicesFor _ _
      distinct := hnodup
      injective := hpids
      spawned := by rw [hprocesses]; rfl
      stopped := fun s hs _ => (hnone s hs).1
      started := fun s hs hpid => absurd (hnone s hs).2 hpid
      filed := fun s hs pid hpid => absurd hpid (hsome s hs pid)
      held := fun s hs pid hpid => absurd hpid (hsome s hs pid)
      live := by simp [hprocesses]
      files := fun name pid hfile => .inr (hfresh.pidFiles name pid hfile) }

lemma CarefulRun.owned (h₀ : Owned w₀.stage) (hquit : w₀.app.shouldQuit = false)
    (h : CarefulRun w₀ rounds) (hw : Continues w₀ rounds w) : Owned w.stage :=
  hw.induct (I := fun w => Owned w.stage) hquit h₀ fun x r y w _ hxy hx howned hr =>
    (ensures_run_owned howned (h x r y hxy w hx)).of_ok hr

lemma CarefulRun.of_append {x y : List Round} (h : CarefulRun w₀ (x ++ y)) : CarefulRun w₀ x :=
  forall_rounds_of_append h

lemma carefulRun_of_all (h : ∀ i < rounds.length, (after w₀ (rounds.take i)).all fun w =>
    rounds[i]?.all fun r => Careful (w.enter r) (w.app.request r.event)) :
    CarefulRun w₀ rounds := by
  rintro x r y rfl w ⟨hw, hquit⟩
  have hcheck := h x.length (by simp)
  have hafter : after w₀ x = some w := by
    rw [after, hw]
    simp [hquit]
  rw [List.take_left, hafter, List.getElem?_append_right (Nat.le_refl _), Nat.sub_self] at hcheck
  exact of_decide_eq_true hcheck

end Runs

/-- In a run whose requests are careful, each process stays with the service that it was started
for. -/
theorem processes_owned (os : Os) (rounds : List Round) (hpids : Function.Injective os.pids)
    (hfresh : os.Fresh) (hcareful : CarefulRun (World.start os) rounds) :
    ProcessOwnership (World.start os) rounds := by
  have h₀ := owned_start hpids hfresh
  constructor
  · rintro x r y rfl _ w hw
    rw [← List.singleton_append, ← List.append_assoc] at hcareful
    exact (hcareful.of_append.owned h₀ rfl hw).ownsProcesses
  · rintro x r y rfl w w' hw hr hreq
    have howned := hcareful.of_append.owned h₀ rfl hw
    have hround := hcareful x r y rfl w hw
    rw [hreq] at hround
    exact (ensures_run_removeUpf howned hreq hround).of_ok hr

/-- The first UPF is started, found running, and deleted. -/
def deletingRounds : List Round :=
  [press (.char '2'), ⟨freshOs.surroundings, .refresh⟩, press .tab, press .tab, press .tab,
    press (.char 'd'), ⟨freshOs.surroundings, .refresh⟩]

/-- The second UPF is started and found running, and the first one is deleted. -/
def renamingRounds : List Round :=
  [press (.char '3'), ⟨freshOs.surroundings, .refresh⟩, press .tab, press .tab, press .tab,
    press (.char 'd')]

theorem processes_owned_deleting : ProcessOwnership (World.start freshOs) deletingRounds :=
  processes_owned freshOs deletingRounds (fun i j h => Nat.add_left_cancel h)
    ⟨rfl, fun name pid h => by cases h⟩ (carefulRun_of_all (by decide +kernel))

theorem processes_owned_fails :
    ¬ProcessOwnership (World.start freshOs) (renamingRounds ++ [⟨freshOs.surroundings, .refresh⟩]) := by
  intro h
  have hafter : (after (World.start freshOs)
      (renamingRounds ++ [⟨freshOs.surroundings, .refresh⟩])).any fun w =>
        ∃ s ∈ w.app.services, ∃ p ∈ w.os.processes, s.pid = some p.pid ∧ p.addr ≠ s.addr := by
    decide +kernel
  obtain ⟨w, hw, hfound⟩ := (Option.any_eq_true _ _).mp hafter
  obtain ⟨s, hs, p, hp, hpid, haddr⟩ := of_decide_eq_true hfound
  exact haddr ((h.1 renamingRounds _ [] rfl rfl w (continues_of_after hw)).2 s hs p hp hpid)

end PfcpProxy.Manager
