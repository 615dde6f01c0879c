import PfcpProxy.AppInvariant

/-!
# Commands for all services

`start_all` and `stop_all` go through the first four services, however many there are, and the
proxy is always started with the same three UPFs. A service that is starting is started once more,
and is not stopped.
-/

namespace PfcpProxy.Manager

open Conditions

def ServiceInfo.Up (s : ServiceInfo) : Prop := s.status = .starting ∨ s.status = .running

instance (s : ServiceInfo) : Decidable s.Up :=
  inferInstanceAs (Decidable (s.status = .starting ∨ s.status = .running))

lemma not_up_of_stopped {s : ServiceInfo} (h : s.status = .stopped) : ¬s.Up := by
  rw [ServiceInfo.Up, h]
  decide

/-- The UPFs that a process was started with, which follow `--backends` and are split at commas. -/
def Process.backends (p : Process) : List (List Char) := (p.args[3]?.getD []).splitOn ','

/-- After all services have been started they are up, and a proxy that was started has been given
the addresses of the list. -/
def StartsFleet (w : World) : Prop :=
  Ensures startAll
    (fun _ w' => (∀ s ∈ w'.app.services, s.Up) ∧
      ∀ p ∈ w'.os.processes.drop w.os.processes.length, p.program = "pfcp-proxy".toList →
        ∀ addr, addr ∈ p.backends ↔ addr ∈ w.app.upfList)
    (fun _ _ => False) w

/-- After all services have been stopped, those that were up are stopped, without a pid, and their
processes have been signalled. -/
def StopsFleet (w : World) : Prop :=
  Ensures stopAll
    (fun _ w' => ∀ (i : ℕ) (s : ServiceInfo), w.app.services[i]? = some s → s.Up →
      ∃ t pid force, w'.app.services[i]? = some t ∧ t.status = .stopped ∧ t.pid = none ∧
        s.pid = some pid ∧ (pid, force) ∈ w'.os.signals.drop w.os.signals.length)
    (fun _ _ => False) w

/-- The services behind the first four are up, and the proxy is running or the list has the three
addresses that a proxy is started with. -/
def App.StartCovers (app : App) : Prop :=
  (∀ s ∈ app.services.drop 4, s.Up) ∧
    ∀ proxy ∈ app.services[0]?, proxy.status ≠ .running →
      ∀ addr, addr ∈ [upf1Addr, upf2Addr, upf3Addr] ↔ addr ∈ app.upfList

/-- No service is starting, and none behind the first four is running. -/
def App.StopCovers (app : App) : Prop :=
  (∀ s ∈ app.services, s.status ≠ .starting) ∧ ∀ s ∈ app.services.drop 4, s.status ≠ .running

/-! ### Starting -/

section Starting

variable {stage : Stage}

lemma start_up {i j : ℕ} {t : ServiceInfo} (ht : (stage.start i).services[j]? = some t) :
    t.Up ∨ i ≠ j ∧ stage.services[j]? = some t := by
  by_cases hij : i = j
  · subst hij
    left
    unfold Stage.start at ht
    split at ht
    next hnone =>
      rw [hnone] at ht
      cases ht
    next s hs =>
      split at ht
      next hrunning =>
        rw [hs] at ht
        cases ht
        exact .inr hrunning
      next =>
        dsimp only at ht
        rw [List.getElem?_modify, hs] at ht
        cases ht
        left
        simp
  · rw [start_getElem? stage hij] at ht
    exact .inr ⟨hij, ht⟩

lemma startAll_up {is : List ℕ} {j : ℕ} {t : ServiceInfo}
    (ht : (is.foldl (fun stage i => stage.start i) stage).services[j]? = some t) :
    t.Up ∨ j ∉ is ∧ stage.services[j]? = some t := by
  induction is generalizing stage with
  | nil => exact .inr ⟨List.not_mem_nil, ht⟩
  | cons i is ih =>
    obtain hup | ⟨hj, ht⟩ := ih ht
    · exact .inl hup
    · obtain hup | ⟨hij, ht⟩ := start_up ht
      · exact .inl hup
      · refine .inr ⟨fun hmem => ?_, ht⟩
        obtain rfl | hmem := List.mem_cons.mp hmem
        · exact hij rfl
        · exact hj hmem

lemma startAll_getElem? {is : List ℕ} {j : ℕ} (hj : j ∉ is) :
    (is.foldl (fun stage i => stage.start i) stage).services[j]? = stage.services[j]? := by
  induction is generalizing stage with
  | nil => rfl
  | cons i is ih =>
    rw [List.mem_cons, not_or] at hj
    rw [List.foldl_cons, ih hj.2, start_getElem? stage (Ne.symm hj.1)]

def Process.command (p : Process) : List Char × List (List Char) := (p.program, p.args)

/-- What is run to start this service, unless it is running. -/
def Stage.commandFor (stage : Stage) (i : ℕ) : Option (List Char × List (List Char)) :=
  (stage.services[i]?).bind fun s => if s.status = .running then none else some (serviceCommand s)

lemma commands_start (i : ℕ) : (stage.start i).processes.map Process.command =
    stage.processes.map Process.command ++ (stage.commandFor i).toList := by
  unfold Stage.start Stage.commandFor
  split
  next hnone => simp [hnone]
  next s hs =>
    split
    next hrunning => simp [hs, hrunning]
    next hidle => simp [hs, hidle, Process.command]

lemma commands_startAll {is : List ℕ} (his : is.Nodup) :
    (is.foldl (fun stage i => stage.start i) stage).processes.map Process.command =
      stage.processes.map Process.command ++ is.filterMap stage.commandFor := by
  induction is generalizing stage with
  | nil => simp
  | cons i is ih =>
    rw [List.nodup_cons] at his
    have hsame : is.filterMap (stage.start i).commandFor = is.filterMap stage.commandFor := by
      apply List.filterMap_congr
      intro j hj
      have hij : i ≠ j := by
        rintro rfl
        exact his.1 hj
      rw [Stage.commandFor, start_getElem? stage hij, Stage.commandFor]
    rw [List.foldl_cons, ih his.2, commands_start, hsame, List.append_assoc]
    cases h : stage.commandFor i with
    | none => simp [h]
    | some command => simp [h]

/-- A proxy is started for the service with its name, always with the same UPFs. -/
lemma backends_of_command {p : Process} {s : ServiceInfo} (h : p.command = serviceCommand s)
    (hprogram : p.program = "pfcp-proxy".toList) :
    s.name = proxyName ∧ p.backends = [upf1Addr, upf2Addr, upf3Addr] := by
  unfold serviceCommand at h
  split at h
  next hname =>
    obtain ⟨-, hargs⟩ := Prod.mk.inj h
    refine ⟨hname, ?_⟩
    rw [Process.backends, hargs]
    decide +kernel
  next =>
    obtain ⟨hother, -⟩ := Prod.mk.inj h
    rw [hprogram] at hother
    exact absurd hother (by decide)

lemma backends_of_proxy {p : Process} {s : ServiceInfo} (h : p.command = serviceCommand s)
    (hname : s.name = proxyName) :
    p.program = "pfcp-proxy".toList ∧ p.backends = [upf1Addr, upf2Addr, upf3Addr] := by
  have hprogram : p.program = "pfcp-proxy".toList := by
    rw [serviceCommand, if_pos hname] at h
    exact (Prod.mk.inj h).1
  exact ⟨hprogram, (backends_of_command h hprogram).2⟩

end Starting

/-! ### Calm rounds -/

/-- Where no I/O operation fails, the computation does not fail either. -/
abbrev StaysCalm {α : Type} (m : Run α) : Prop := Maintains World.Calm (fun _ => False) m

lemma staysCalm_attempt (f : Os → Os) (hf : ∀ os, (f os).surroundings = os.surroundings) :
    StaysCalm (attempt f) := by
  intro w hw
  refine ensures_attempt_calm hw f fun outcomes hw₁ => ?_
  have hsame := hf (w.withOutcomes outcomes).os
  show false ∉ (f (w.withOutcomes outcomes).os).surroundings.outcomes
  rwa [hsame]

lemma staysCalm_onApp (f : App → App) : StaysCalm (onApp f) := maintains_modify fun _ hw => hw

lemma staysCalm_setMessage (msg : List Char) : StaysCalm (setMessage msg) := staysCalm_onApp _

lemma staysCalm_startService (i : ℕ) : StaysCalm (startService i) := by
  unfold startService
  refine maintains_get.bind fun w => ?_
  split
  · exact maintains_pure _
  · refine maintains_ite (staysCalm_setMessage _) ?_
    exact (staysCalm_attempt (Os.createLog _) fun _ => rfl).bind fun _ =>
      (staysCalm_attempt id fun _ => rfl).bind fun _ => maintains_get.bind fun _ =>
        (staysCalm_attempt (Os.spawn _ _) fun _ => rfl).bind fun _ =>
          (staysCalm_attempt (Os.writePid _ _) fun _ => rfl).bind fun _ =>
            (staysCalm_onApp _).bind fun _ => staysCalm_setMessage _

lemma staysCalm_startAll : StaysCalm startAll :=
  maintains_get.bind fun _ => maintains_ite
    ((maintains_forM _ fun i _ => staysCalm_startService i).bind fun _ =>
      (staysCalm_startService 0).bind fun _ => staysCalm_setMessage _)
    (staysCalm_setMessage _)

section Fleet

variable {w : World}

lemma ensures_startAll_calm (hw : w.Calm) (hprograms : w.HasPrograms) :
    Ensures startAll
      (fun _ w' => w'.stage = [1, 2, 3, 0].foldl (fun stage i => stage.start i) w.stage)
      (fun _ _ => False) w := by
  refine ((ensures_startAll w).and (staysCalm_startAll w hw)).mono (fun _ w' h => ?_)
    fun _ _ h => h.2.1
  rw [h.1, if_pos hprograms]

lemma index_of_proxyName {s : ServiceInfo} {i : ℕ}
    (hlabels : w.app.services.map ServiceInfo.label = labelsFor w.app.upfList)
    (hs : w.app.services[i]? = some s) (hname : s.name = proxyName) : i = 0 := by
  cases i with
  | zero => rfl
  | succ i =>
    have hupf := (label_at_succ hlabels hs).2
    exact absurd (hupf.symm.trans hname) (upfName_ne_proxyName i)

/-- The services behind the first four are left as they are. -/
lemma all_up_iff (stage : Stage) :
    (∀ s ∈ ([1, 2, 3, 0].foldl (fun stage i => stage.start i) stage).services, s.Up) ↔
      ∀ s ∈ stage.services.drop 4, s.Up := by
  constructor
  · intro hup s hs
    obtain ⟨i, hi, hsome⟩ := mem_drop_iff.mp hs
    have hbehind : i ∉ [1, 2, 3, 0] := by
      simp
      omega
    refine hup s (List.mem_of_getElem? (i := i) ?_)
    rw [startAll_getElem? hbehind]
    exact hsome
  · intro hup s hs
    obtain ⟨j, hj⟩ := List.mem_iff_getElem?.mp hs
    obtain h | ⟨hmem, hsome⟩ := startAll_up hj
    · exact h
    · refine hup s (mem_drop_iff.mpr ⟨j, ?_, hsome⟩)
      simp at hmem
      omega

/-- A proxy is started if and only if the first service is not running. -/
lemma backends_given_iff
    (hlabels : w.app.services.map ServiceInfo.label = labelsFor w.app.upfList)
    {new : List Process}
    (hnew : new.map Process.command = [1, 2, 3, 0].filterMap w.stage.commandFor) :
    (∀ p ∈ new, p.program = "pfcp-proxy".toList →
        ∀ addr, addr ∈ p.backends ↔ addr ∈ w.app.upfList) ↔
      ∀ proxy ∈ w.app.services[0]?, proxy.status ≠ .running →
        ∀ addr, addr ∈ [upf1Addr, upf2Addr, upf3Addr] ↔ addr ∈ w.app.upfList := by
  constructor
  · intro hgiven proxy hproxy hidle
    have hmem : serviceCommand proxy ∈ [1, 2, 3, 0].filterMap w.stage.commandFor := by
      refine List.mem_filterMap.mpr ⟨0, by simp, ?_⟩
      rw [Stage.commandFor, show w.stage.services[0]? = some proxy from hproxy]
      simp [hidle]
    rw [← hnew] at hmem
    obtain ⟨p, hp, hcommand⟩ := List.mem_map.mp hmem
    have hname : proxy.name = proxyName := congrArg Prod.fst (label_at_zero hlabels hproxy)
    obtain ⟨hprogram, hbackends⟩ := backends_of_proxy hcommand hname
    rw [← hbackends]
    exact hgiven p hp hprogram
  · intro hlist p hp hprogram
    have hmem := List.mem_map_of_mem (f := Process.command) hp
    rw [hnew] at hmem
    obtain ⟨i, -, hi⟩ := List.mem_filterMap.mp hmem
    obtain ⟨s, hs, hcommand⟩ := Option.bind_eq_some_iff.mp hi
    split at hcommand
    next => cases hcommand
    next hidle =>
      obtain ⟨hname, hbackends⟩ := backends_of_command (Option.some.inj hcommand).symm hprogram
      obtain rfl := index_of_proxyName hlabels hs hname
      rw [hbackends]
      exact hlist s hs hidle

lemma startsFleet_iff (hlabels : w.app.services.map ServiceInfo.label = labelsFor w.app.upfList)
    (hw : w.Calm) (hprograms : w.HasPrograms) : StartsFleet w ↔ w.app.StartCovers := by
  obtain ⟨_, w', hok, hstage⟩ := (ensures_startAll_calm hw hprograms).exists_ok
  have hcommands : w'.os.processes.map Process.command =
      w.os.processes.map Process.command ++ [1, 2, 3, 0].filterMap w.stage.commandFor := by
    rw [show w'.os.processes = _ from congrArg Stage.processes hstage]
    exact commands_startAll (by decide)
  have hnew : (w'.os.processes.drop w.os.processes.length).map Process.command =
      [1, 2, 3, 0].filterMap w.stage.commandFor := by
    rw [List.map_drop, hcommands, List.drop_left' (List.length_map _)]
  have hservices : w'.app.services = _ := congrArg Stage.services hstage
  rw [StartsFleet, ensures_iff_of_ok hok, hservices]
  exact and_congr (all_up_iff w.stage) (backends_given_iff hlabels hnew)

end Fleet

/-! ### Stopping -/

/-- The service after it has been stopped, if it is running. -/
def ServiceInfo.afterStop (s : ServiceInfo) : ServiceInfo :=
  if s.status = .running ∧ s.pid ≠ none then { s with status := .stopped, pid := none } else s

/-- These services have been stopped, and their processes signalled. -/
structure StopsAll (is : List ℕ) (stage stage' : Stage) : Prop where
  stopped : ∀ j ∈ is, stage'.services[j]? = (stage.services[j]?).map ServiceInfo.afterStop
  others : ∀ j, j ∉ is → stage'.services[j]? = stage.services[j]?
  signals : ∃ sent, stage'.signals = stage.signals ++ sent ∧ ∀ i ∈ is, stage.Reached i sent

section Stopping

variable {stage stage₁ stage' : Stage} {w : World}

lemma stop_services (i : ℕ) (sent : List (Pid × Bool)) (j : ℕ) :
    (stage.stop i sent).services[j]? =
      if i = j then (stage.services[j]?).map ServiceInfo.afterStop else stage.services[j]? := by
  unfold Stage.stop
  split
  next hnone =>
    split
    next hij => rw [← hij, hnone]; rfl
    next => rfl
  next s hs =>
    split
    next hrunning =>
      split
      next hpid =>
        split
        next hij => rw [← hij, hs]; simp [ServiceInfo.afterStop, hpid]
        next => rfl
      next pid hpid =>
        dsimp only
        rw [List.getElem?_modify]
        split
        next hij => rw [← hij, hs]; simp [ServiceInfo.afterStop, hrunning, hpid]
        next => simp
    next hidle =>
      split
      next hij => rw [← hij, hs]; simp [ServiceInfo.afterStop, hidle]
      next => rfl

lemma stop_reached {i : ℕ} {sent : List (Pid × Bool)} (h : stage.Reached i sent) :
    ∃ sent', (stage.stop i sent).signals = stage.signals ++ sent' ∧ stage.Reached i sent' := by
  unfold Stage.stop
  split
  next hnone => exact ⟨[], (List.append_nil _).symm, by simp [Stage.Reached, hnone]⟩
  next s hs =>
    split
    next hrunning =>
      split
      next hpid => exact ⟨[], (List.append_nil _).symm, by simp [Stage.Reached, hs, hpid]⟩
      next pid hpid => exact ⟨sent, rfl, h⟩
    next hidle => exact ⟨[], (List.append_nil _).symm, by simp [Stage.Reached, hs, hidle]⟩

lemma stopsAll_stop {i : ℕ} {sent : List (Pid × Bool)} (h : stage.Reached i sent) :
    StopsAll [i] stage (stage.stop i sent) where
  stopped j hj := by
    rw [List.mem_singleton.mp hj, stop_services, if_pos rfl]
  others j hj := by
    rw [stop_services, if_neg (Ne.symm (List.ne_of_not_mem_cons hj))]
  signals := by
    obtain ⟨sent', hsignals, hreached⟩ := stop_reached h
    refine ⟨sent', hsignals, fun j hj => ?_⟩
    rw [List.mem_singleton.mp hj]
    exact hreached

lemma stopsAll_nil (stage : Stage) : StopsAll [] stage stage where
  stopped := by simp
  others _ _ := rfl
  signals := ⟨[], (List.append_nil _).symm, by simp⟩

lemma StopsAll.append {is js : List ℕ} (h : StopsAll is stage stage₁)
    (h' : StopsAll js stage₁ stage') (hdisjoint : List.Disjoint is js) :
    StopsAll (is ++ js) stage stage' where
  stopped j hj := by
    obtain hi | hj := List.mem_append.mp hj
    · rw [h'.others j fun hj => hdisjoint hi hj, h.stopped j hi]
    · rw [h'.stopped j hj, h.others j fun hi => hdisjoint hi hj]
  others j hj := by
    rw [List.mem_append, not_or] at hj
    rw [h'.others j hj.2, h.others j hj.1]
  signals := by
    obtain ⟨sent, hsignals, hreached⟩ := h.signals
    obtain ⟨sent', hsignals', hreached'⟩ := h'.signals
    refine ⟨sent ++ sent', ?_, fun i hi s hs hrunning pid hpid => ?_⟩
    · rw [hsignals', hsignals, List.append_assoc]
    · rw [List.mem_append]
      obtain hi | hi := List.mem_append.mp hi
      · exact .inl (hreached i hi s hs hrunning pid hpid)
      · rw [← h.others i fun hi' => hdisjoint hi' hi] at hs
        exact .inr (hreached' i hi s hs hrunning pid hpid)

lemma StopsAll.getElem?_same {is : List ℕ} (h : StopsAll is stage stage') {j : ℕ}
    {s : ServiceInfo} (hs : stage.services[j]? = some s) (hj : s.status ≠ .running ∨ j ∉ is) :
    stage'.services[j]? = some s := by
  by_cases hmem : j ∈ is
  · have hidle : s.status ≠ .running := hj.resolve_right fun hnot => hnot hmem
    rw [h.stopped j hmem, hs, Option.map_some, ServiceInfo.afterStop,
      if_neg fun hrunning => hidle hrunning.1]
  · rw [h.others j hmem, hs]

lemma ensures_stopService_all (hw : w.Calm) (i : ℕ) :
    Ensures (stopService i) (fun _ w' => w'.Calm ∧ StopsAll [i] w.stage w'.stage)
      (fun _ _ => False) w := by
  refine (ensures_stopService hw i).mono (fun _ w' h => ?_) fun _ _ h => h
  obtain ⟨hsame, sent, -, hreached, hstage⟩ := h
  refine ⟨hsame.1, ?_⟩
  rw [hstage]
  exact stopsAll_stop hreached

lemma ensures_stopServices {is : List ℕ} (his : is.Nodup) (hw : w.Calm) :
    Ensures (is.forM stopService) (fun _ w' => w'.Calm ∧ StopsAll is w.stage w'.stage)
      (fun _ _ => False) w := by
  induction is generalizing w with
  | nil => exact ⟨hw, stopsAll_nil _⟩
  | cons i is ih =>
    rw [List.nodup_cons] at his
    change Ensures (stopService i >>= fun _ => is.forM stopService) _ _ w
    rw [ensures_bind]
    refine (ensures_stopService_all hw i).mono (fun _ w₁ h₁ => ?_) fun _ _ h => h
    refine (ih his.2 h₁.1).mono (fun _ w₂ h₂ => ?_) fun _ _ h => h
    exact ⟨h₂.1, h₁.2.append h₂.2 (List.singleton_disjoint.mpr his.1)⟩

lemma ensures_stopAll_all (hw : w.Calm) :
    Ensures stopAll (fun _ w' => StopsAll [0, 1, 2, 3] w.stage w'.stage) (fun _ _ => False) w := by
  unfold stopAll
  rw [ensures_bind]
  refine (ensures_stopService_all hw 0).mono (fun _ w₁ h₁ => ?_) fun _ _ h => h
  rw [ensures_bind]
  refine (ensures_stopServices (by decide) h₁.1).mono (fun _ w₂ h₂ => ?_) fun _ _ h => h
  exact h₁.2.append h₂.2 (List.singleton_disjoint.mpr (by decide))

/-- A service that is up has a pid. -/
def App.PidsHeld (app : App) : Prop := ∀ s ∈ app.services, s.Up → s.pid ≠ none

lemma stopsFleet_iff (hpids : w.app.PidsHeld) (hw : w.Calm) :
    StopsFleet w ↔ w.app.StopCovers := by
  obtain ⟨_, w', hok, hstops⟩ := (ensures_stopAll_all hw).exists_ok
  obtain ⟨sent, hsignals, hreached⟩ := hstops.signals
  have hsent : w'.os.signals.drop w.os.signals.length = sent := by
    rw [show w'.os.signals = w.os.signals ++ sent from hsignals, List.drop_left]
  rw [StopsFleet, ensures_iff_of_ok hok, hsent]
  constructor
  · intro h
    have hsame : ∀ (j : ℕ) (s : ServiceInfo), w.app.services[j]? = some s → s.Up →
        ¬(s.status ≠ .running ∨ j ∉ [0, 1, 2, 3]) := by
      intro j s hs hup hleft
      obtain ⟨t, pid, force, ht, hstatus, -⟩ := h j s hs hup
      rw [show w'.app.services[j]? = some s from hstops.getElem?_same hs hleft] at ht
      cases ht
      exact not_up_of_stopped hstatus hup
    constructor
    · intro s hs hstarting
      obtain ⟨j, hj⟩ := List.mem_iff_getElem?.mp hs
      exact hsame j s hj (.inl hstarting) (.inl (by rw [hstarting]; decide))
    · intro s hs hrunning
      obtain ⟨j, hfour, hj⟩ := mem_drop_iff.mp hs
      exact hsame j s hj (.inr hrunning) (.inr (by simp; omega))
  · rintro ⟨hstarting, hbehind⟩ i s hs hup
    have hmem : s ∈ w.app.services := List.mem_of_getElem? hs
    have hrunning : s.status = .running := hup.resolve_left (hstarting s hmem)
    have hi : i ∈ [0, 1, 2, 3] := by
      by_contra hnot
      refine hbehind s (mem_drop_iff.mpr ⟨i, ?_, hs⟩) hrunning
      simp at hnot
      omega
    obtain ⟨pid, hpid⟩ := Option.ne_none_iff_exists'.mp (hpids s hmem hup)
    refine ⟨s.afterStop, pid, false, ?_, ?_, ?_, hpid, hreached i hi s hs hrunning pid hpid⟩
    · rw [show w'.app.services[i]? = _ from hstops.stopped i hi,
        show w.stage.services[i]? = some s from hs, Option.map_some]
    · simp [ServiceInfo.afterStop, hrunning, hpid]
    · simp [ServiceInfo.afterStop, hrunning, hpid]

end Stopping

/-! ### Runs -/

section Runs

variable {app app' : App}

lemma App.PidsHeld.servicesFor (h : app.PidsHeld) (upfList : List (List Char)) :
    ∀ s ∈ App.servicesFor app.services upfList, s.Up → s.pid ≠ none := by
  intro s hs
  obtain rfl | hs := List.mem_cons.mp hs
  · cases hhead : app.services.head? with
    | none => exact fun hup => absurd hup (not_up_of_stopped rfl)
    | some proxy =>
      intro hup
      exact h proxy (List.mem_of_mem_head? hhead) hup
  · obtain ⟨idx, hidx, rfl⟩ := List.mem_mapIdx.mp hs
    unfold App.serviceFor
    cases hfind : app.services.find? (fun s => s.addr = upfList[idx]) with
    | none => exact fun hup => absurd hup (not_up_of_stopped rfl)
    | some s =>
      intro hup
      exact h s (List.mem_of_find?_eq_some hfind) hup

lemma forall_modify {α : Type} {P : α → Prop} {l : List α} {f : α → α} {i : ℕ}
    (h : ∀ x ∈ l, P x) (hf : ∀ x, P (f x)) : ∀ y ∈ l.modify i f, P y := by
  intro y hy
  obtain ⟨j, hj⟩ := List.mem_iff_getElem?.mp hy
  rw [List.getElem?_modify] at hj
  obtain ⟨x, hx, rfl⟩ := Option.map_eq_some_iff.mp hj
  split
  · exact hf x
  · exact h x (List.mem_of_getElem? hx)

lemma AppChange.pidsHeld (h : AppChange app app') (happ : app.PidsHeld) : app'.PidsHeld := by
  cases h with
  | display hservices =>
    unfold App.PidsHeld
    rw [hservices]
    exact happ
  | starting => exact forall_modify happ fun _ _ => Option.some_ne_none _
  | stopped => exact forall_modify happ fun _ hup => absurd hup (not_up_of_stopped rfl)
  | refresh hsettled =>
    intro s hs hup
    obtain ⟨-, hpid⟩ | ⟨hstopped, -⟩ := hsettled s hs
    · exact hpid
    · exact absurd hup (not_up_of_stopped hstopped)
  | sync => exact happ.servicesFor _
  | addLog => exact happ
  | clearLogs => exact happ
  | scrollLogsUp => exact happ
  | scrollLogsDown => exact happ
  | enableAutoScroll => exact happ

lemma pidsHeld_start (os : Os) : (World.start os).app.PidsHeld := by
  have hstopped : ∀ s ∈ (World.start os).app.services, s.status = .stopped := by
    change ∀ s ∈ App.new.syncServicesWithUpfList.services, s.status = .stopped
    decide +kernel
  exact fun s hs hup => absurd hup (not_up_of_stopped (hstopped s hs))

end Runs

/-- Wherever the main loop goes on, `start_all` and `stop_all` act on all services under exactly
these conditions. -/
theorem fleet_commands_iff (os : Os) (rounds : List Round) (w : World)
    (hw : Continues (World.start os) rounds w) (r : Round) (hcalm : (w.enter r).Calm)
    (hprograms : (w.enter r).HasPrograms) :
    (StartsFleet (w.enter r) ↔ w.app.StartCovers) ∧
      (StopsFleet (w.enter r) ↔ w.app.StopCovers) := by
  have hplan := hw.coherent rfl (coherent_start os)
  have hpids := hw.of_changes (fun _ _ h => h.pidsHeld) rfl (pidsHeld_start os)
  exact ⟨startsFleet_iff (w := w.enter r) hplan.labels hcalm hprograms,
    stopsFleet_iff (w := w.enter r) hpids hcalm⟩

/-- All services are started and found running. -/
def startingRounds : List Round := [press (.char 's'), ⟨freshOs.surroundings, .refresh⟩]

lemma calm_press (w : World) (code : KeyCode) : (w.enter (press code)).Calm := List.not_mem_nil

/-- A fourth UPF is added, and all services are started. -/
def enlargingRounds : List Round :=
  [press .tab, press .tab, press .tab, press (.char 'a')] ++
    "127.0.0.1:8809".toList.map (fun c => press (.char c)) ++
      [press .enter, press .tab, press (.char 's')]

theorem fleet_commands_starting : ∃ w, Continues (World.start freshOs) startingRounds w ∧
    StartsFleet (w.enter (press (.char 's'))) ∧ StopsFleet (w.enter (press (.char 's'))) := by
  have hafter : (after (World.start freshOs) startingRounds).any fun w =>
      (∀ s ∈ w.app.services, s.status = .running) ∧ w.app.services.drop 4 = [] := by
    decide +kernel
  obtain ⟨w, hw, hchecked⟩ := (Option.any_eq_true _ _).mp hafter
  obtain ⟨hrunning, hdrop⟩ := of_decide_eq_true hchecked
  have hcontinues := continues_of_after hw
  obtain ⟨hstart, hstop⟩ := fleet_commands_iff freshOs startingRounds w hcontinues
    (press (.char 's')) (calm_press w _) ⟨rfl, rfl⟩
  refine ⟨w, hcontinues, hstart.mpr ⟨by simp [hdrop], ?_⟩, hstop.mpr ⟨?_, by simp [hdrop]⟩⟩
  · exact fun proxy hproxy hidle => absurd (hrunning proxy (List.mem_of_getElem? hproxy)) hidle
  · intro s hs hstarting
    rw [hrunning s hs] at hstarting
    cases hstarting

theorem fleet_commands_fails : ∃ w, Continues (World.start freshOs) enlargingRounds w ∧
    (w.enter (press (.char 's'))).Calm ∧ (w.enter (press (.char 's'))).HasPrograms ∧
      ¬StartsFleet (w.enter (press (.char 's'))) ∧ ¬StopsFleet (w.enter (press (.char 's'))) := by
  have hafter : (after (World.start freshOs) enlargingRounds).any fun w =>
      (∃ s ∈ w.app.services.drop 4, ¬s.Up) ∧ ∃ s ∈ w.app.services, s.status = .starting := by
    decide +kernel
  obtain ⟨w, hw, hchecked⟩ := (Option.any_eq_true _ _).mp hafter
  obtain ⟨⟨s, hs, hdown⟩, t, ht, hstarting⟩ := of_decide_eq_true hchecked
  have hcontinues := continues_of_after hw
  have hplan := hcontinues.coherent rfl (coherent_start freshOs)
  have hpids := hcontinues.of_changes (fun _ _ h => h.pidsHeld) rfl (pidsHeld_start freshOs)
  have hstart := startsFleet_iff (w := w.enter (press (.char 's'))) hplan.labels (calm_press w _)
    ⟨rfl, rfl⟩
  have hstop := stopsFleet_iff (w := w.enter (press (.char 's'))) hpids (calm_press w _)
  exact ⟨w, hcontinues, calm_press w _, ⟨rfl, rfl⟩, fun hstarts => hdown ((hstart.mp hstarts).1 s hs),
    fun hstops => (hstop.mp hstops).1 t ht hstarting⟩

end PfcpProxy.Manager
