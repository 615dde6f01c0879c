import PfcpProxy.ManagerLoop

/-!
# What operations leave alone

Most operations leave the plan of the manager alone: the names and addresses of the services, the
UPF list with its selected entry, and the commands written. Those that only have to do with the
display, the logs or the programs leave all of the stage alone, processes and pid files included.
None of them panics.
-/

namespace PfcpProxy.Manager

open Conditions

/-- Everything but the display, the logs and the surroundings. -/
structure Stage where
  services : List ServiceInfo
  upfList : List (List Char)
  selectedUpf : ℕ
  pidFiles : Table (List Char) (Option Pid)
  control : List Char
  processes : List Process
  others : List Pid
  signals : List (Pid × Bool)
  pids : ℕ → Pid

def World.stage (w : World) : Stage :=
  ⟨w.app.services, w.app.upfList, w.app.selectedUpf, w.os.pidFiles, w.os.control, w.os.processes,
    w.os.others, w.os.signals, w.os.pids⟩

structure Plan where
  labels : List (List Char × List Char)
  upfList : List (List Char)
  selectedUpf : ℕ
  control : List Char

def ServiceInfo.label (s : ServiceInfo) : List Char × List Char := (s.name, s.addr)

def Stage.plan (stage : Stage) : Plan :=
  ⟨stage.services.map ServiceInfo.label, stage.upfList, stage.selectedUpf, stage.control⟩

def World.plan (w : World) : Plan := w.stage.plan

abbrev Quiet {α : Type} (m : Run α) : Prop := Leaves World.stage (· ≠ .panic) m

abbrev Steady {α : Type} (m : Run α) : Prop := Leaves World.plan (· ≠ .panic) m

lemma Quiet.steady {α : Type} {m : Run α} (hm : Quiet m) : Steady m :=
  hm.map Stage.plan fun _ => rfl

/-! ### Quiet operations -/

lemma quiet_onApp {f : App → App} (hf : ∀ w : World, (w.onApp f).stage = w.stage) :
    Quiet (onApp f) := leaves_modify hf

lemma quiet_setMessage (msg : List Char) : Quiet (setMessage msg) := quiet_onApp fun _ => rfl

lemma quiet_addLog (line : List Char) : Quiet (addLog line) := quiet_onApp fun _ => rfl

lemma ensures_outcome {w : World} {Q : Bool → World → Prop} {E : Stop → World → Prop}
    (h : ∀ ok (w' : World), w'.app = w.app → w'.stage = w.stage → Q ok w') :
    Ensures outcome Q E w := by
  unfold outcome
  rw [ensures_modifyGet]
  split
  · exact h _ _ rfl rfl
  · exact h _ _ rfl rfl

lemma quiet_outcome : Quiet outcome := by
  rintro stage w rfl
  exact ensures_outcome fun _ _ _ h => h

lemma leaves_attempt {γ : Type} {view : World → γ} (f : Os → Os)
    (houtcome : Leaves view (· ≠ .panic) outcome) (hf : ∀ w, view (w.onOs f) = view w) :
    Leaves view (· ≠ .panic) (attempt f) :=
  houtcome.bind fun _ => leaves_ite (leaves_modify hf) (leaves_throw (by decide))

lemma leaves_tryTo {γ : Type} {view : World → γ} (f : Os → Os)
    (houtcome : Leaves view (· ≠ .panic) outcome) (hf : ∀ w, view (w.onOs f) = view w) :
    Leaves view (· ≠ .panic) (tryTo f) :=
  houtcome.bind fun _ => leaves_ite (leaves_modify hf) (leaves_pure _)

lemma quiet_attempt_id : Quiet (attempt id) := leaves_attempt id quiet_outcome fun _ => rfl

lemma quiet_processExists (pid : Pid) : Quiet (processExists pid) :=
  quiet_outcome.bind fun _ => leaves_get.bind fun _ => leaves_pure _

lemma quiet_buildProject : Quiet buildProject :=
  (quiet_setMessage _).bind fun _ => quiet_attempt_id.bind fun _ => leaves_get.bind fun _ =>
    leaves_ite (quiet_setMessage _) (quiet_setMessage _)

lemma quiet_runTestCase (testName : String) (args : List String) :
    Quiet (runTestCase testName args) :=
  (quiet_setMessage _).bind fun _ => quiet_attempt_id.bind fun _ => leaves_get.bind fun _ =>
    leaves_ite ((quiet_setMessage _).bind fun _ => leaves_forM _ fun _ => quiet_addLog _)
      (quiet_setMessage _)

lemma quiet_runTestAt (testIdx : ℕ) : Quiet (runTestAt testIdx) := by
  unfold runTestAt
  cases testCase testIdx with
  | none => exact leaves_pure _
  | some test => exact quiet_runTestCase _ _

lemma ensures_runTest (testIdx : ℕ) (w : World) :
    Ensures (runTest testIdx) (fun _ w' => w'.stage = w.stage)
      (fun e _ => 0 < w.app.services.length → e ≠ .panic) w := by
  unfold runTest
  simp only [ensures_bind, ensures_get, ensures_ite]
  split
  · split
    next hnone =>
      rw [List.getElem?_eq_none_iff] at hnone
      exact fun hlen => absurd hlen (Nat.not_lt.mpr hnone)
    next proxy _ =>
      rw [ensures_ite]
      split
      · exact ((quiet_runTestAt testIdx).ensures w).mono (fun _ _ h => h) fun _ _ h _ => h
      · exact ((quiet_setMessage _).ensures w).mono (fun _ _ h => h) fun _ _ h _ => h
  · exact ((quiet_setMessage _).ensures w).mono (fun _ _ h => h) fun _ _ h _ => h

lemma quiet_cleanLogs : Quiet cleanLogs :=
  (leaves_attempt Os.removeLogs quiet_outcome fun _ => rfl).bind fun _ =>
    quiet_attempt_id.bind fun _ =>
      (quiet_onApp (f := App.clearLogs) fun _ => rfl).bind fun _ =>
        quiet_setMessage _

lemma quiet_updateLogs : Quiet updateLogs := by
  refine leaves_get.bind fun _ => leaves_forM _ fun name => leaves_get.bind fun w => ?_
  split
  · exact leaves_pure _
  · exact quiet_outcome.bind fun _ =>
      leaves_ite (leaves_forM _ fun _ => quiet_addLog _) (leaves_pure _)

/-! ### Steady operations -/

lemma steady_attempt (f : Os → Os) (hf : ∀ os, (f os).control = os.control) :
    Steady (attempt f) := by
  refine leaves_attempt f quiet_outcome.steady fun w => ?_
  simp only [World.plan, World.stage, Stage.plan, World.onOs, hf]

lemma steady_tryTo (f : Os → Os) (hf : ∀ os, (f os).control = os.control) :
    Steady (tryTo f) := by
  refine leaves_tryTo f quiet_outcome.steady fun w => ?_
  simp only [World.plan, World.stage, Stage.plan, World.onOs, hf]

lemma steady_setMessage (msg : List Char) : Steady (setMessage msg) := (quiet_setMessage msg).steady

lemma steady_endProcess (pid : Pid) : Steady (endProcess pid) := by
  have hkill : ∀ force, Steady (killProcess pid force) := fun force =>
    steady_attempt (Os.signal pid force) fun _ => rfl
  exact (hkill false).bind fun _ => (quiet_processExists pid).steady.bind fun _ =>
    leaves_ite (hkill true) (leaves_pure _)

lemma map_label_modify (services : List ServiceInfo) (i : ℕ) (status : ServiceStatus)
    (pid : Option Pid) :
    (services.modify i fun s => { s with status := status, pid := pid }).map ServiceInfo.label =
      services.map ServiceInfo.label := by
  apply List.ext_getElem?
  intro j
  rw [List.getElem?_map, List.getElem?_modify, List.getElem?_map]
  cases services[j]? with
  | none => rfl
  | some s =>
    by_cases h : i = j
    · simp [h, ServiceInfo.label]
    · simp [h]

lemma steady_setService (i : ℕ) (status : ServiceStatus) (pid : Option Pid) :
    Steady (onApp (App.setService i status pid)) := by
  apply leaves_modify
  intro w
  simp only [World.plan, World.stage, Stage.plan, World.onApp, App.setService, map_label_modify]

lemma steady_startService (i : ℕ) : Steady (startService i) := by
  unfold startService
  refine leaves_get.bind fun w => ?_
  split
  · exact leaves_pure _
  · refine leaves_ite (steady_setMessage _) ?_
    exact (steady_attempt (Os.createLog _) fun _ => rfl).bind fun _ =>
      quiet_attempt_id.steady.bind fun _ => leaves_get.bind fun _ =>
        (steady_attempt (Os.spawn _ _) fun _ => rfl).bind fun _ =>
          (steady_attempt (Os.writePid _ _) fun _ => rfl).bind fun _ =>
            (steady_setService _ _ _).bind fun _ => steady_setMessage _

lemma steady_stopService (i : ℕ) : Steady (stopService i) := by
  unfold stopService
  refine leaves_get.bind fun w => ?_
  split
  · exact leaves_pure _
  refine leaves_ite ?_ (steady_setMessage _)
  split
  · exact leaves_pure _
  · exact (steady_endProcess _).bind fun _ => (steady_setService _ _ _).bind fun _ =>
      (steady_tryTo (Os.removePid _) fun _ => rfl).bind fun _ => steady_setMessage _

lemma steady_startAll : Steady startAll :=
  leaves_get.bind fun _ => leaves_ite
    ((leaves_forM _ steady_startService).bind fun _ => (steady_startService 0).bind fun _ =>
      steady_setMessage _)
    (steady_setMessage _)

lemma steady_stopAll : Steady stopAll :=
  (steady_stopService 0).bind fun _ => (leaves_forM _ steady_stopService).bind fun _ =>
    steady_setMessage _

lemma steady_restartAll : Steady restartAll := steady_stopAll.bind fun _ => steady_startAll

lemma ensures_tryTo {f : Os → Os} {w : World} {Q : Unit → World → Prop}
    {E : Stop → World → Prop}
    (h : ∀ w' : World, w'.app = w.app → w'.stage = w.stage → Q () w' ∧ Q () (w'.onOs f)) :
    Ensures (tryTo f) Q E w := by
  unfold tryTo
  rw [ensures_bind]
  refine ensures_outcome fun ok w' happ hstage => ?_
  rw [ensures_ite]
  split
  · exact (h w' happ hstage).2
  · exact (h w' happ hstage).1

lemma ensures_processExists {pid : Pid} {w : World} {Q : Bool → World → Prop}
    {E : Stop → World → Prop}
    (h : ∀ found (w' : World), w'.app = w.app → w'.stage = w.stage → Q found w') :
    Ensures (processExists pid) Q E w := by
  unfold processExists
  rw [ensures_bind]
  exact ensures_outcome fun ok w' happ hstage => h _ w' happ hstage

/-- What following the status leaves: a running service with a pid, or a stopped one without. -/
def ServiceInfo.Settled (s : ServiceInfo) : Prop :=
  s.status = .running ∧ s.pid ≠ none ∨ s.status = .stopped ∧ s.pid = none

lemma ensures_refreshService (service : ServiceInfo) (w : World) :
    Ensures (refreshService service)
      (fun s w' => s.label = service.label ∧ s.Settled ∧ w'.app = w.app ∧ w'.plan = w.plan)
      (fun _ _ => False) w := by
  have hplan : ∀ {w₁ w₂ : World}, w₂.stage = w₁.stage → w₁.plan = w.plan → w₂.plan = w.plan :=
    fun hstage h => (congrArg Stage.plan hstage).trans h
  have hrunning : ∀ pid, ({ service with status := .running, pid := some pid } :
      ServiceInfo).Settled := fun pid => .inl ⟨rfl, Option.some_ne_none pid⟩
  have hstopped : ({ service with status := .stopped, pid := none } : ServiceInfo).Settled :=
    .inr ⟨rfl, rfl⟩
  unfold refreshService
  simp only [ensures_bind, ensures_get]
  refine ensures_outcome fun ok w₁ happ₁ hstage₁ => ?_
  have h₁ : w₁.plan = w.plan := hplan hstage₁ rfl
  split
  · simp only [ensures_ite, ensures_bind, ensures_pure]
    split
    · refine ensures_processExists fun found w₂ happ₂ hstage₂ => ?_
      have h₂ : w₂.plan = w.plan := hplan hstage₂ h₁
      split
      · exact ⟨rfl, hrunning _, happ₂.trans happ₁, h₂⟩
      · rw [ensures_bind]
        refine ensures_tryTo fun w₃ happ₃ hstage₃ => ?_
        have happ : w₃.app = w.app := happ₃.trans (happ₂.trans happ₁)
        have h₃ : w₃.plan = w.plan := hplan hstage₃ h₂
        exact ⟨⟨rfl, hstopped, happ, h₃⟩, ⟨rfl, hstopped, happ, h₃⟩⟩
    · exact ⟨rfl, hstopped, happ₁, h₁⟩
  · exact ⟨rfl, hstopped, happ₁, h₁⟩

lemma steady_updateServiceStatus : Steady updateServiceStatus := by
  intro plan w hw
  unfold updateServiceStatus
  simp only [ensures_bind, ensures_get]
  have hrefresh := ensures_mapM (E := fun _ _ => False) (I := fun w' => w'.plan = plan)
    ServiceInfo.label ServiceInfo.label w.app.services (fun service _ w₁ hw₁ =>
      (ensures_refreshService service w₁).mono (fun _ _ h => ⟨h.1, h.2.2.2.trans hw₁⟩)
        fun _ _ h => h) hw
  refine hrefresh.mono (fun services w' h => ?_) fun _ _ h => h.elim
  rw [onApp, ensures_modify]
  have hplan := h.2.trans hw.symm
  simp only [World.plan, World.stage, Stage.plan, Plan.mk.injEq] at hplan
  simp only [World.plan, World.stage, Stage.plan, World.onApp, h.1, ← hw, hplan]

/-! ### Commands -/

lemma ensures_attempt {f : Os → Os} {w : World} {Q : Unit → World → Prop}
    (h : ∀ w' : World, w'.app = w.app → w'.stage = w.stage → Q () (w'.onOs f)) :
    Ensures (attempt f) Q (fun e _ => e ≠ .panic) w := by
  unfold attempt
  rw [ensures_bind]
  refine ensures_outcome fun ok w' happ hstage => ?_
  rw [ensures_ite]
  split
  · exact h w' happ hstage
  · exact (by decide : Stop.error ≠ .panic)

lemma ensures_sendUpfCommand (action addr : List Char) (w : World) :
    Ensures (sendUpfCommand action addr)
      (fun _ w' => w'.app = w.app ∧
        w'.stage = { w.stage with control := w.stage.control ++ commandLine action addr })
      (fun e _ => e ≠ .panic) w := by
  unfold sendUpfCommand
  rw [ensures_bind]
  refine ensures_attempt fun w₁ happ₁ hstage₁ => ?_
  rw [ensures_bind]
  refine ensures_attempt fun w₂ happ₂ hstage₂ => ?_
  refine ensures_attempt fun w₃ happ₃ hstage₃ => ⟨?_, ?_⟩
  · exact happ₃.trans (happ₂.trans happ₁)
  · have hwrite : (w₂.onOs (Os.appendControl (commandLine action addr))).stage =
        { w₂.stage with control := w₂.stage.control ++ commandLine action addr } := rfl
    rw [hstage₂, show (w₁.onOs id).stage = w.stage from hstage₁] at hwrite
    exact hstage₃.trans hwrite

end PfcpProxy.Manager
