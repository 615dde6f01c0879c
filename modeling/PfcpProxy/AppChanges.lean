import PfcpProxy.ManagerPlan

/-!
# Changes of the manager's state

Each operation changes the state of the manager in steps of a few kinds (`AppChange`), also if it
fails in the middle. What every change keeps holds wherever the main loop goes on.
-/

namespace PfcpProxy.Manager

open Conditions

inductive AppChange : App → App → Prop
  | display {app app' : App} (hservices : app'.services = app.services)
      (hlogs : app'.logs = app.logs) (hscroll : app'.logScroll = app.logScroll)
      (hauto : app'.autoScrollLogs = app.autoScrollLogs) : AppChange app app'
  | starting (app : App) (i : ℕ) (pid : Pid) : AppChange app (app.setService i .starting (some pid))
  | stopped (app : App) (i : ℕ) : AppChange app (app.setService i .stopped none)
  | refresh (app : App) {services : List ServiceInfo} (hsettled : ∀ s ∈ services, s.Settled) :
      AppChange app { app with services := services }
  | sync (app : App) : AppChange app app.syncServicesWithUpfList
  | addLog (app : App) (line : List Char) : AppChange app (app.addLog line)
  | clearLogs (app : App) : AppChange app app.clearLogs
  | scrollLogsUp (app : App) : AppChange app app.scrollLogsUp
  | scrollLogsDown (app : App) : AppChange app app.scrollLogsDown
  | enableAutoScroll (app : App) : AppChange app app.enableAutoScroll

/-- The computation changes the state of the manager by such changes only. -/
def Changes {α : Type} (m : Run α) : Prop :=
  ∀ I : App → Prop, (∀ app app', AppChange app app' → I app → I app') →
    Maintains (fun w => I w.app) (fun _ => True) m

section Rules

variable {α β : Type} {m m' : Run α} {f : α → Run β}

lemma Changes.bind (hm : Changes m) (hf : ∀ a, Changes (f a)) : Changes (m >>= f) :=
  fun I hI => (hm I hI).bind fun a => hf a I hI

lemma changes_pure (a : α) : Changes (pure a : Run α) := fun _ _ => maintains_pure a

lemma changes_get : Changes (get : Run World) := fun _ _ => maintains_get

lemma changes_throw (e : Stop) : Changes (throw e : Run α) := fun _ _ => maintains_throw trivial

lemma changes_ite {c : Prop} [Decidable c] (hm : Changes m) (hm' : Changes m') :
    Changes (if c then m else m') := fun I hI => maintains_ite (hm I hI) (hm' I hI)

lemma changes_forM {γ : Type} {g : γ → Run PUnit} (xs : List γ) (hg : ∀ x, Changes (g x)) :
    Changes (xs.forM g) := fun I hI => maintains_forM xs fun x _ => hg x I hI

lemma Changes.ignoring {m : Run Unit} (hm : Changes m) (p : Stop → Bool) :
    Changes (ignoring p m) := fun I hI => (hm I hI).ignoring p

lemma changes_onApp {g : App → App} (hg : ∀ app, AppChange app (g app)) : Changes (onApp g) :=
  fun _ hI => maintains_modify fun w h => hI w.app _ (hg w.app) h

lemma changes_onOs (g : Os → Os) : Changes (modify (World.onOs g)) :=
  fun _ _ => maintains_modify fun _ h => h

end Rules

/-! ### Operations -/

lemma changes_outcome : Changes outcome := by
  intro I _ w hw
  refine ensures_outcome fun _ w' happ _ => ?_
  rw [happ]
  exact hw

lemma changes_attempt (g : Os → Os) : Changes (attempt g) :=
  changes_outcome.bind fun _ => changes_ite (changes_onOs g) (changes_throw _)

lemma changes_tryTo (g : Os → Os) : Changes (tryTo g) :=
  changes_outcome.bind fun _ => changes_ite (changes_onOs g) (changes_pure _)

lemma changes_processExists (pid : Pid) : Changes (processExists pid) :=
  changes_outcome.bind fun _ => changes_get.bind fun _ => changes_pure _

lemma changes_setMessage (msg : List Char) : Changes (setMessage msg) :=
  changes_onApp fun _ => .display rfl rfl rfl rfl

lemma changes_addLog (line : List Char) : Changes (addLog line) :=
  changes_onApp fun app => .addLog app line

lemma changes_endProcess (pid : Pid) : Changes (endProcess pid) :=
  (changes_attempt _).bind fun _ => (changes_processExists pid).bind fun _ =>
    changes_ite (changes_attempt _) (changes_pure _)

lemma changes_startService (i : ℕ) : Changes (startService i) := by
  unfold startService
  refine changes_get.bind fun w => ?_
  split
  · exact changes_pure _
  · refine changes_ite (changes_setMessage _) ?_
    exact (changes_attempt _).bind fun _ => (changes_attempt _).bind fun _ =>
      changes_get.bind fun _ => (changes_attempt _).bind fun _ => (changes_attempt _).bind fun _ =>
        (changes_onApp fun app => .starting app i _).bind fun _ => changes_setMessage _

lemma changes_stopService (i : ℕ) : Changes (stopService i) := by
  unfold stopService
  refine changes_get.bind fun w => ?_
  split
  · exact changes_pure _
  refine changes_ite ?_ (changes_setMessage _)
  split
  · exact changes_pure _
  · exact (changes_endProcess _).bind fun _ =>
      (changes_onApp fun app => .stopped app i).bind fun _ =>
        (changes_tryTo _).bind fun _ => changes_setMessage _

lemma changes_startAll : Changes startAll :=
  changes_get.bind fun _ => changes_ite
    ((changes_forM _ changes_startService).bind fun _ => (changes_startService 0).bind fun _ =>
      changes_setMessage _)
    (changes_setMessage _)

lemma changes_stopAll : Changes stopAll :=
  (changes_stopService 0).bind fun _ => (changes_forM _ changes_stopService).bind fun _ =>
    changes_setMessage _

lemma changes_restartAll : Changes restartAll := changes_stopAll.bind fun _ => changes_startAll

lemma changes_buildProject : Changes buildProject :=
  (changes_setMessage _).bind fun _ => (changes_attempt _).bind fun _ => changes_get.bind fun _ =>
    changes_ite (changes_setMessage _) (changes_setMessage _)

lemma changes_runTestCase (testName : String) (args : List String) :
    Changes (runTestCase testName args) :=
  (changes_setMessage _).bind fun _ => (changes_attempt _).bind fun _ => changes_get.bind fun _ =>
    changes_ite ((changes_setMessage _).bind fun _ => changes_forM _ fun _ => changes_addLog _)
      (changes_setMessage _)

lemma changes_runTestAt (testIdx : ℕ) : Changes (runTestAt testIdx) := by
  unfold runTestAt
  split
  · exact changes_pure _
  · exact changes_runTestCase _ _

lemma changes_runTest (testIdx : ℕ) : Changes (runTest testIdx) := by
  unfold runTest
  refine changes_get.bind fun w => changes_ite ?_ (changes_setMessage _)
  split
  · exact changes_throw _
  · exact changes_ite (changes_runTestAt testIdx) (changes_setMessage _)

lemma changes_cleanLogs : Changes cleanLogs :=
  (changes_attempt _).bind fun _ => (changes_attempt _).bind fun _ =>
    (changes_onApp AppChange.clearLogs).bind fun _ => changes_setMessage _

lemma changes_updateLogs : Changes updateLogs := by
  refine changes_get.bind fun _ => changes_forM _ fun name => changes_get.bind fun w => ?_
  split
  · exact changes_pure _
  · exact changes_outcome.bind fun _ =>
      changes_ite (changes_forM _ fun _ => changes_addLog _) (changes_pure _)

lemma changes_sendUpfCommand (action addr : List Char) : Changes (sendUpfCommand action addr) :=
  (changes_attempt _).bind fun _ => (changes_attempt _).bind fun _ => changes_attempt _

lemma changes_updateServiceStatus : Changes updateServiceStatus := by
  intro I hI w hw
  unfold updateServiceStatus
  simp only [ensures_bind, ensures_get]
  have hrefresh := ensures_mapM (E := fun _ _ => False) (I := fun w' => I w'.app)
    ServiceInfo.Settled (fun _ => True) w.app.services (fun service _ w₁ hw₁ =>
      (ensures_refreshService service w₁).mono
        (fun _ _ h => ⟨eq_true h.2.1, h.2.2.1.symm ▸ hw₁⟩) fun _ _ h => h) hw
  refine hrefresh.mono (fun services w' h => ?_) fun _ _ h => h.elim
  refine hI _ _ (.refresh w'.app fun s hs => ?_) h.2
  have hsettled := List.mem_map_of_mem (f := ServiceInfo.Settled) hs
  rw [h.1] at hsettled
  obtain ⟨_, _, htrue⟩ := List.mem_map.mp hsettled
  exact htrue ▸ trivial

/-! ### Rounds -/

lemma changes_quit : Changes quit := changes_onApp fun _ => .display rfl rfl rfl rfl

lemma changes_nextTab : Changes nextTab := by
  unfold nextTab
  refine changes_get.bind fun w => ?_
  split
  · exact changes_throw _
  split
  · exact changes_throw _
  · exact changes_onApp fun _ => .display rfl rfl rfl rfl

lemma changes_toggleService (i : ℕ) : Changes (toggleService i) := by
  unfold toggleService
  refine changes_get.bind fun w => ?_
  split
  · exact changes_throw _
  · exact changes_ite (changes_stopService i) (changes_startService i)

lemma changes_dashboardKey (key : Key) : Changes (dashboardKey key) := by
  unfold dashboardKey
  split
  · exact changes_quit
  · exact changes_nextTab
  · exact changes_startAll
  · exact changes_stopAll
  · exact changes_restartAll
  · exact changes_toggleService 0
  · exact changes_toggleService 1
  · exact changes_toggleService 2
  · exact changes_toggleService 3
  · exact changes_ite changes_buildProject (changes_pure _)
  · exact changes_ite changes_cleanLogs (changes_pure _)
  · exact changes_onApp fun _ => .display rfl rfl rfl rfl
  · exact changes_pure _

lemma changes_logsKey (key : Key) : Changes (logsKey key) := by
  unfold logsKey
  split
  · exact changes_quit
  · exact changes_nextTab
  · exact changes_onApp AppChange.scrollLogsUp
  · exact changes_onApp AppChange.scrollLogsDown
  · exact changes_onApp AppChange.enableAutoScroll
  · exact changes_ite changes_cleanLogs (changes_pure _)
  · exact changes_pure _

lemma changes_testsKey (key : Key) : Changes (testsKey key) := by
  unfold testsKey
  split
  · exact changes_quit
  · exact changes_nextTab
  · exact changes_onApp fun _ => .display rfl rfl rfl rfl
  · exact changes_onApp fun _ => .display rfl rfl rfl rfl
  · exact changes_get.bind fun _ => changes_runTest _
  · exact changes_pure _

lemma changes_addUpf : Changes addUpf := by
  unfold addUpf
  refine changes_get.bind fun w => changes_ite (changes_pure _) <|
    changes_ite (changes_setMessage _) <| changes_ite (changes_setMessage _) ?_
  refine (changes_onApp ?_).bind fun _ => (changes_sendUpfCommand _ _).bind fun _ =>
    (changes_onApp AppChange.sync).bind fun _ => (changes_setMessage _).bind fun _ =>
      changes_onApp ?_
  · exact fun _ => .display rfl rfl rfl rfl
  · exact fun _ => .display rfl rfl rfl rfl

lemma changes_inputKey (key : Key) : Changes (inputKey key) := by
  obtain ⟨code, control⟩ := key
  cases code with
  | char c => exact changes_onApp fun _ => .display rfl rfl rfl rfl
  | backspace => exact changes_onApp fun _ => .display rfl rfl rfl rfl
  | enter => exact changes_addUpf
  | esc => exact changes_onApp fun _ => .display rfl rfl rfl rfl
  | _ => exact changes_pure _

lemma changes_stopServiceAt (removed : List Char) : Changes (stopServiceAt removed) := by
  unfold stopServiceAt
  refine changes_get.bind fun w => ?_
  split
  · exact changes_pure _
  split
  · exact changes_throw _
  · exact changes_ite ((changes_stopService _).ignoring _) (changes_pure _)

lemma display_clampSelected (app : App) : AppChange app app.clampSelected := by
  unfold App.clampSelected
  split
  · exact .display rfl rfl rfl rfl
  · exact .display rfl rfl rfl rfl

lemma changes_dropUpf (removed : List Char) : Changes (dropUpf removed) :=
  (changes_stopServiceAt _).bind fun _ => (changes_sendUpfCommand _ _).bind fun _ =>
    (changes_onApp AppChange.sync).bind fun _ => (changes_setMessage _).bind fun _ =>
      changes_onApp display_clampSelected

lemma changes_removeUpf : Changes removeUpf := by
  unfold removeUpf
  refine changes_get.bind fun w => changes_ite ?_ (changes_pure _)
  split
  · exact changes_throw _
  · refine (changes_onApp ?_).bind fun _ => changes_dropUpf _
    exact fun _ => .display rfl rfl rfl rfl

lemma changes_upfsKey (key : Key) : Changes (upfsKey key) := by
  unfold upfsKey
  split
  · exact changes_quit
  · exact changes_nextTab
  · exact changes_onApp fun _ => .display rfl rfl rfl rfl
  · exact changes_removeUpf
  · exact changes_onApp fun _ => .display rfl rfl rfl rfl
  · refine changes_onApp fun app => ?_
    split
    · exact .display rfl rfl rfl rfl
    · exact .display rfl rfl rfl rfl
  · exact changes_pure _

lemma changes_handleKey (key : Key) : Changes (handleKey key) := by
  unfold handleKey
  refine changes_get.bind fun w => ?_
  split
  · exact changes_dashboardKey key
  · exact changes_dashboardKey key
  · exact changes_logsKey key
  · exact changes_testsKey key
  · exact changes_ite (changes_inputKey key) (changes_upfsKey key)

lemma changes_handle (event : Event) : Changes event.handle := by
  cases event with
  | key k => exact changes_handleKey k
  | refresh => exact changes_updateServiceStatus
  | followLogs => exact changes_updateLogs
  | print name line => exact changes_onOs _

lemma changes_run (r : Round) : Changes r.run :=
  Changes.bind (fun _ _ => maintains_modify fun _ h => h) fun _ => changes_handle r.event

/-- What every change keeps holds wherever the loop goes on. -/
lemma Continues.of_changes {I : App → Prop}
    (hI : ∀ app app', AppChange app app' → I app → I app') {w₀ w : World} {rounds : List Round}
    (hquit : w₀.app.shouldQuit = false) (h₀ : I w₀.app) (hw : Continues w₀ rounds w) : I w.app :=
  hw.induct (I := fun w => I w.app) hquit h₀ fun _ r _ w _ _ _ h hr =>
    (changes_run r I hI w h).of_ok hr

end PfcpProxy.Manager
