import PfcpProxy.ManagerPlan

/-!
# Requests of the user

Of the many keys only a few have to do with more than the display, the logs and the programs. An
event asks for one of them (`App.request`), or it leaves the stage alone.
-/

namespace PfcpProxy.Manager

open Conditions

inductive Request
  | toggle (serviceIdx : ℕ)
  | startAll
  | stopAll
  | restartAll
  | runTest
  | addUpf
  | removeUpf
  | selectUp
  | selectDown
  | refresh
  | other
  deriving DecidableEq, Repr

def selectUp : Run Unit := onApp fun app => { app with selectedUpf := app.selectedUpf - 1 }

def selectDown : Run Unit := onApp fun app =>
  if app.upfList = [] then app
  else { app with selectedUpf := min (app.selectedUpf + 1) (app.upfList.length - 1) }

def carryOut : Request → Run Unit
  | .toggle serviceIdx => toggleService serviceIdx
  | .startAll => startAll
  | .stopAll => stopAll
  | .restartAll => restartAll
  | .runTest => do
    let w ← get
    runTest w.app.selectedTest
  | .addUpf => addUpf
  | .removeUpf => removeUpf
  | .selectUp => selectUp
  | .selectDown => selectDown
  | .refresh => updateServiceStatus
  | .other => pure ()

def dashboardRequest : KeyCode → Request
  | .char 's' => .startAll
  | .char 'x' => .stopAll
  | .char 'r' => .restartAll
  | .char '1' => .toggle 0
  | .char '2' => .toggle 1
  | .char '3' => .toggle 2
  | .char '4' => .toggle 3
  | _ => .other

def testsRequest : KeyCode → Request
  | .enter => .runTest
  | _ => .other

def inputRequest : KeyCode → Request
  | .enter => .addUpf
  | _ => .other

def upfsRequest : KeyCode → Request
  | .char 'd' => .removeUpf
  | .up => .selectUp
  | .down => .selectDown
  | _ => .other

/-- What an event asks for, other than changes of the display, the logs and the programs. -/
def App.request (app : App) : Event → Request
  | .key k =>
    match app.currentTab with
    | .dashboard => dashboardRequest k.code
    | .help => dashboardRequest k.code
    | .logs => .other
    | .tests => testsRequest k.code
    | .upfs => if app.upfInputMode then inputRequest k.code else upfsRequest k.code
  | .refresh => .refresh
  | .followLogs => .other
  | .print _ _ => .other

/-- The computation does what the request says, or leaves the stage alone if it says nothing. -/
def Fulfils (m : Run Unit) (request : Request) : Prop :=
  m = carryOut request ∨ request = .other ∧ Quiet m

lemma quiet_quit : Quiet quit := quiet_onApp fun _ => rfl

lemma quiet_nextTab : Quiet nextTab := by
  have hidx : ∀ tab, ∃ idx next, Tab.all.idxOf? tab = some idx ∧
      Tab.all[(idx + 1) % Tab.all.length]? = some next := by
    intro tab
    cases tab <;> exact ⟨_, _, rfl, rfl⟩
  refine leaves_get.bind fun w => ?_
  obtain ⟨idx, next, hcur, hnext⟩ := hidx w.app.currentTab
  simp only [hcur, hnext]
  exact quiet_onApp fun _ => rfl

lemma fulfils_dashboardKey (key : Key) :
    Fulfils (dashboardKey key) (dashboardRequest key.code) := by
  unfold dashboardKey
  split
  next h => exact .inr ⟨by rw [h]; rfl, quiet_quit⟩
  next h => exact .inr ⟨by rw [h]; rfl, quiet_nextTab⟩
  next h => exact .inl (by rw [h]; rfl)
  next h => exact .inl (by rw [h]; rfl)
  next h => exact .inl (by rw [h]; rfl)
  next h => exact .inl (by rw [h]; rfl)
  next h => exact .inl (by rw [h]; rfl)
  next h => exact .inl (by rw [h]; rfl)
  next h => exact .inl (by rw [h]; rfl)
  next h => exact .inr ⟨by rw [h]; rfl, leaves_ite quiet_buildProject (leaves_pure _)⟩
  next h => exact .inr ⟨by rw [h]; rfl, leaves_ite quiet_cleanLogs (leaves_pure _)⟩
  next h => exact .inr ⟨by rw [h]; rfl, quiet_onApp fun _ => rfl⟩
  next =>
    refine .inr ⟨?_, leaves_pure _⟩
    unfold dashboardRequest
    split <;> first | rfl | contradiction

lemma fulfils_testsKey (key : Key) : Fulfils (testsKey key) (testsRequest key.code) := by
  unfold testsKey
  split
  next h => exact .inr ⟨by rw [h]; rfl, quiet_quit⟩
  next h => exact .inr ⟨by rw [h]; rfl, quiet_nextTab⟩
  next h => exact .inr ⟨by rw [h]; rfl, quiet_onApp fun _ => rfl⟩
  next h => exact .inr ⟨by rw [h]; rfl, quiet_onApp fun _ => rfl⟩
  next h => exact .inl (by rw [h]; rfl)
  next =>
    refine .inr ⟨?_, leaves_pure _⟩
    unfold testsRequest
    split <;> first | rfl | contradiction

lemma fulfils_inputKey (key : Key) : Fulfils (inputKey key) (inputRequest key.code) := by
  obtain ⟨code, control⟩ := key
  cases code with
  | char c => exact .inr ⟨rfl, quiet_onApp fun _ => rfl⟩
  | backspace => exact .inr ⟨rfl, quiet_onApp fun _ => rfl⟩
  | enter => exact .inl rfl
  | esc => exact .inr ⟨rfl, quiet_onApp fun _ => rfl⟩
  | _ => exact .inr ⟨rfl, leaves_pure _⟩

lemma fulfils_upfsKey (key : Key) : Fulfils (upfsKey key) (upfsRequest key.code) := by
  unfold upfsKey
  split
  next h => exact .inr ⟨by rw [h]; rfl, quiet_quit⟩
  next h => exact .inr ⟨by rw [h]; rfl, quiet_nextTab⟩
  next h => exact .inr ⟨by rw [h]; rfl, quiet_onApp fun _ => rfl⟩
  next h => exact .inl (by rw [h]; rfl)
  next h => exact .inl (by rw [h]; rfl)
  next h => exact .inl (by rw [h]; rfl)
  next =>
    refine .inr ⟨?_, leaves_pure _⟩
    unfold upfsRequest
    split <;> first | rfl | contradiction

lemma quiet_logsKey (key : Key) : Quiet (logsKey key) := by
  unfold logsKey
  split
  next => exact quiet_quit
  next => exact quiet_nextTab
  next => exact quiet_onApp fun _ => rfl
  next => exact quiet_onApp fun _ => rfl
  next => exact quiet_onApp fun _ => rfl
  next => exact leaves_ite quiet_cleanLogs (leaves_pure _)
  next => exact leaves_pure _

variable {w : World} {event : Event} {Q : Unit → World → Prop} {E : Stop → World → Prop}

lemma Fulfils.ensures {m : Run Unit} {request : Request} (hm : Fulfils m request)
    (hdo : Ensures (carryOut request) Q E w)
    (hother : ∀ w', request = .other → w'.stage = w.stage → Q () w')
    (herror : ∀ w', request = .other → E .error w') : Ensures m Q E w := by
  obtain rfl | ⟨rfl, hquiet⟩ := hm
  · exact hdo
  · refine (hquiet.ensures w).mono (fun _ w' hw' => hother w' rfl hw') fun e w' he => ?_
    cases e with
    | panic => exact absurd rfl he
    | error => exact herror w' rfl

lemma ensures_handle (hdo : Ensures (carryOut (w.app.request event)) Q E w)
    (hother : ∀ w', w.app.request event = .other → w'.stage = w.stage → Q () w')
    (herror : ∀ w', w.app.request event = .other → E .error w') : Ensures event.handle Q E w := by
  cases event with
  | key k =>
    unfold Event.handle handleKey
    simp only [ensures_bind, ensures_get]
    unfold App.request at hdo hother herror
    dsimp only at hdo hother herror
    split at hdo <;> rename_i htab <;> simp only [htab] at hother herror ⊢
    · exact (fulfils_dashboardKey k).ensures hdo hother herror
    · exact (fulfils_dashboardKey k).ensures hdo hother herror
    · exact Fulfils.ensures (.inr ⟨rfl, quiet_logsKey k⟩) hdo (fun w' _ => hother w' trivial)
        fun w' _ => herror w' trivial
    · exact (fulfils_testsKey k).ensures hdo hother herror
    · split at hdo <;> rename_i hmode <;> simp only [hmode] at hother herror ⊢
      · exact (fulfils_inputKey k).ensures hdo hother herror
      · exact (fulfils_upfsKey k).ensures hdo hother herror
  | refresh => exact hdo
  | followLogs => exact Fulfils.ensures (.inr ⟨rfl, quiet_updateLogs⟩) hdo hother herror
  | print name line =>
    exact Fulfils.ensures (.inr ⟨rfl, leaves_modify fun _ => rfl⟩) hdo hother herror

lemma ensures_run {r : Round} (hdo : Ensures (carryOut (w.app.request r.event)) Q E (w.enter r))
    (hother : ∀ w', w.app.request r.event = .other → w'.stage = w.stage → Q () w')
    (herror : ∀ w', w.app.request r.event = .other → E .error w') : Ensures r.run Q E w := by
  unfold Round.run
  rw [ensures_bind, ensures_modify]
  exact ensures_handle hdo hother herror

/-! ### Requests that leave the plan alone -/

lemma ensures_toggleService (i : ℕ) (w : World) :
    Ensures (toggleService i) (fun _ w' => w'.plan = w.plan)
      (fun e _ => i < w.app.services.length → e ≠ .panic) w := by
  unfold toggleService
  simp only [ensures_bind, ensures_get]
  split
  next hnone =>
    rw [List.getElem?_eq_none_iff] at hnone
    exact fun hi => absurd hi (Nat.not_lt.mpr hnone)
  next =>
    rw [ensures_ite]
    split
    · exact ((steady_stopService i).ensures w).mono (fun _ _ h => h) fun _ _ h _ => h
    · exact ((steady_startService i).ensures w).mono (fun _ _ h => h) fun _ _ h _ => h

/-- The request is one of the keys of the UPF tab. -/
def Request.OnUpfs (request : Request) : Prop :=
  request ∈ [.addUpf, .removeUpf, .selectUp, .selectDown]

/-- The services that the request takes for granted are there. -/
def Request.InRange (services : List ServiceInfo) : Request → Prop
  | .toggle i => i < services.length
  | .runTest => 0 < services.length
  | _ => True

lemma ensures_carryOut_plan (w : World) {request : Request} (hreq : ¬request.OnUpfs) :
    Ensures (carryOut request) (fun _ w' => w'.plan = w.plan)
      (fun e _ => request.InRange w.app.services → e ≠ .panic) w := by
  have hsteady : ∀ {m : Run Unit}, Steady m → Ensures m (fun _ w' => w'.plan = w.plan)
      (fun e _ => request.InRange w.app.services → e ≠ .panic) w := by
    intro m hm
    exact (hm.ensures w).mono (fun _ _ h => h) fun _ _ h _ => h
  cases request with
  | toggle i => exact ensures_toggleService i w
  | startAll => exact hsteady steady_startAll
  | stopAll => exact hsteady steady_stopAll
  | restartAll => exact hsteady steady_restartAll
  | runTest =>
    unfold carryOut
    simp only [ensures_bind, ensures_get]
    exact (ensures_runTest _ w).mono (fun _ _ h => congrArg Stage.plan h) fun _ _ h => h
  | addUpf => exact absurd (by simp [Request.OnUpfs]) hreq
  | removeUpf => exact absurd (by simp [Request.OnUpfs]) hreq
  | selectUp => exact absurd (by simp [Request.OnUpfs]) hreq
  | selectDown => exact absurd (by simp [Request.OnUpfs]) hreq
  | refresh => exact hsteady steady_updateServiceStatus
  | other => exact hsteady (leaves_pure _)

/-! ### Editing the UPF list -/

/-- The manager takes the input into the list. -/
def App.AcceptsInput (app : App) : Prop :=
  app.upfInput ≠ [] ∧ app.upfList.length < 64 ∧ app.upfInput ∉ app.upfList

instance (app : App) : Decidable app.AcceptsInput :=
  inferInstanceAs (Decidable (app.upfInput ≠ [] ∧ app.upfList.length < 64 ∧
    app.upfInput ∉ app.upfList))

/-- After an entry has been added. -/
def Stage.add (input : List Char) (stage : Stage) : Stage :=
  { stage with
    services := App.servicesFor stage.services (stage.upfList ++ [input])
    upfList := stage.upfList ++ [input]
    control := stage.control ++ commandLine "add".toList input }

/-- After an entry that was taken out of the list has been given up. -/
def Stage.drop (removed : List Char) (stage : Stage) : Stage :=
  { stage with
    services := App.servicesFor stage.services stage.upfList
    control := stage.control ++ commandLine "remove".toList removed
    selectedUpf :=
      if stage.upfList.length ≤ stage.selectedUpf ∧ 0 < stage.selectedUpf then
        stage.selectedUpf - 1
      else stage.selectedUpf }

/-- The selected entry is taken out of the list. -/
def World.shorten (w : World) : World :=
  w.onApp fun app => { app with upfList := app.upfList.eraseIdx app.selectedUpf }

lemma ensures_selectUp (w : World) : Ensures selectUp
    (fun _ w' => w'.stage = { w.stage with selectedUpf := w.stage.selectedUpf - 1 })
    (fun e _ => e ≠ .panic) w := rfl

lemma ensures_selectDown (w : World) : Ensures selectDown
    (fun _ w' => w'.stage = { w.stage with
      selectedUpf := if w.stage.upfList = [] then w.stage.selectedUpf
        else min (w.stage.selectedUpf + 1) (w.stage.upfList.length - 1) })
    (fun e _ => e ≠ .panic) w := by
  unfold selectDown onApp
  rw [ensures_modify]
  unfold World.onApp World.stage
  dsimp only
  split
  · rfl
  · rfl

lemma stage_clampSelected (w : World) : (w.onApp App.clampSelected).stage =
    { w.stage with
      selectedUpf :=
        if w.stage.upfList.length ≤ w.stage.selectedUpf ∧ 0 < w.stage.selectedUpf then
          w.stage.selectedUpf - 1
        else w.stage.selectedUpf } := by
  unfold World.onApp App.clampSelected World.stage
  dsimp only
  split
  · rfl
  · rfl

lemma ensures_addUpf (w : World) :
    Ensures addUpf
      (fun _ w' => w'.stage = if w.app.AcceptsInput then w.stage.add w.app.upfInput else w.stage)
      (fun e _ => e ≠ .panic) w := by
  unfold addUpf
  simp only [ensures_bind, ensures_get, ensures_ite]
  split
  next h =>
    rw [if_neg fun ha : w.app.AcceptsInput => ha.1 h]
    rfl
  split
  next h =>
    rw [if_neg fun ha : w.app.AcceptsInput => Nat.not_lt.mpr h ha.2.1]
    rfl
  split
  next h =>
    rw [if_neg fun ha : w.app.AcceptsInput => ha.2.2 h]
    rfl
  next hempty hfull hnew =>
    rw [if_pos ⟨hempty, Nat.not_le.mp hfull, hnew⟩]
    unfold onApp
    rw [ensures_modify, ensures_bind]
    refine (ensures_sendUpfCommand _ _ _).mono (fun _ w' h => ?_) fun _ _ h => h
    unfold setMessage onApp
    simp only [ensures_bind, ensures_modify]
    change { w'.stage with services := App.servicesFor w'.stage.services w'.stage.upfList } = _
    rw [h.2]
    rfl

lemma ensures_stopServiceAt (removed : List Char) (w : World) :
    Ensures (stopServiceAt removed) (fun _ w' => w'.plan = w.plan) (fun e _ => e ≠ .panic) w := by
  unfold stopServiceAt
  simp only [ensures_bind, ensures_get]
  cases hidx : w.app.services.findIdx? (fun s => s.addr = removed) with
  | none => rfl
  | some i =>
    have hi : i < w.app.services.length := (List.findIdx?_eq_some_iff_findIdx_eq.mp hidx).1
    simp only [List.getElem?_eq_getElem hi, ensures_ite]
    split
    · exact ((steady_stopService i).ignoring _).ensures w
    · rfl

/-- Nothing is selected, or the selected entry has been given up after its service was stopped. -/
lemma ensures_removeUpf (w : World) :
    Ensures removeUpf
      (fun _ w' =>
        match w.app.upfList[w.app.selectedUpf]? with
        | none => w'.stage = w.stage
        | some removed => ∃ w₁, stopServiceAt removed w.shorten = .ok () w₁ ∧
            w'.stage = w₁.stage.drop removed)
      (fun e _ => e ≠ .panic) w := by
  unfold removeUpf
  simp only [ensures_bind, ensures_get, ensures_ite]
  split
  next hsel =>
    simp only [List.getElem?_eq_getElem hsel.2, ensures_bind]
    unfold onApp dropUpf
    rw [ensures_modify, ensures_bind]
    refine ((ensures_stopServiceAt _ _).and ensures_self).mono (fun _ w₁ h₁ => ?_) fun _ _ h => h.1
    rw [ensures_bind]
    refine (ensures_sendUpfCommand _ _ w₁).mono (fun _ w₂ h₂ => ?_) fun _ _ h => h
    unfold setMessage onApp
    simp only [ensures_bind, ensures_modify]
    refine ⟨w₁, h₁.2, ?_⟩
    have hstage : w₁.stage.drop w.app.upfList[w.app.selectedUpf] =
        { w₂.stage with
          services := App.servicesFor w₂.stage.services w₂.stage.upfList
          selectedUpf :=
            if w₂.stage.upfList.length ≤ w₂.stage.selectedUpf ∧ 0 < w₂.stage.selectedUpf then
              w₂.stage.selectedUpf - 1
            else w₂.stage.selectedUpf } := by
      rw [h₂.2]
      rfl
    rw [stage_clampSelected, hstage]
    rfl
  next hsel =>
    have hnone : w.app.upfList[w.app.selectedUpf]? = none := by
      rw [List.getElem?_eq_none_iff]
      by_contra hlt
      exact hsel ⟨List.ne_nil_of_length_pos (by omega), Nat.not_le.mp hlt⟩
    rw [hnone]
    rfl

end PfcpProxy.Manager
