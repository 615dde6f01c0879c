import PfcpProxy.Manager

/-!
# The main loop of the manager

`handle_events` does what a key asks for on the current tab. The main loop handles keys and, from
time to time, follows the status and the logs of the services; it goes on until the user quits or
an operation fails.
-/

namespace PfcpProxy.Manager

open Conditions

inductive KeyCode
  | char (c : Char)
  | tab
  | up
  | down
  | enter
  | backspace
  | esc
  | other
  deriving DecidableEq, Repr

structure Key where
  code : KeyCode
  control : Bool
  deriving DecidableEq, Repr

/-! ### Keys -/

def quit : Run Unit := onApp fun app => { app with shouldQuit := true }

def nextTab : Run Unit := do
  let w ← get
  match Tab.all.idxOf? w.app.currentTab with
  | none => throw .panic
  | some currentIdx =>
    match Tab.all[(currentIdx + 1) % Tab.all.length]? with
    | none => throw .panic
    | some tab => onApp fun app => { app with currentTab := tab }

/-- The service is indexed before anything else. -/
def toggleService (serviceIdx : ℕ) : Run Unit := do
  let w ← get
  match w.app.services[serviceIdx]? with
  | none => throw .panic
  | some service =>
    if service.status = .running then stopService serviceIdx else startService serviceIdx

def dashboardKey (key : Key) : Run Unit :=
  match key.code with
  | .char 'q' => quit
  | .tab => nextTab
  | .char 's' => startAll
  | .char 'x' => stopAll
  | .char 'r' => restartAll
  | .char '1' => toggleService 0
  | .char '2' => toggleService 1
  | .char '3' => toggleService 2
  | .char '4' => toggleService 3
  | .char 'b' => if key.control then buildProject else pure ()
  | .char 'c' => if key.control then cleanLogs else pure ()
  | .char 'h' => onApp fun app => { app with currentTab := .help }
  | _ => pure ()

def logsKey (key : Key) : Run Unit :=
  match key.code with
  | .char 'q' => quit
  | .tab => nextTab
  | .up => onApp App.scrollLogsUp
  | .down => onApp App.scrollLogsDown
  | .char 'a' => onApp App.enableAutoScroll
  | .char 'c' => if key.control then cleanLogs else pure ()
  | _ => pure ()

def testsKey (key : Key) : Run Unit :=
  match key.code with
  | .char 'q' => quit
  | .tab => nextTab
  | .up => onApp fun app => { app with selectedTest := app.selectedTest - 1 }
  | .down => onApp fun app => { app with selectedTest := min (app.selectedTest + 1) 4 }
  | .enter => do
    let w ← get
    runTest w.app.selectedTest
  | _ => pure ()

/-- The input is taken into the list, unless that is full or has it already. -/
def addUpf : Run Unit := do
  let w ← get
  let input := w.app.upfInput
  if input = [] then pure ()
  else if 64 ≤ w.app.upfList.length then setMessage "Maximum 64 UPFs reached".toList
  else if input ∈ w.app.upfList then
    setMessage ("UPF ".toList ++ input ++ " already exists".toList)
  else
    onApp fun app => { app with upfList := app.upfList ++ [input] }
    sendUpfCommand "add".toList input
    onApp App.syncServicesWithUpfList
    setMessage ("Added UPF: ".toList ++ input)
    onApp fun app => { app with upfInput := [], upfInputMode := false }

def inputKey (key : Key) : Run Unit :=
  match key.code with
  | .char c => onApp fun app => { app with upfInput := app.upfInput ++ [c] }
  | .backspace => onApp fun app => { app with upfInput := app.upfInput.dropLast }
  | .enter => addUpf
  | .esc => onApp fun app => { app with upfInput := [], upfInputMode := false }
  | _ => pure ()

/-- Stop the first service at this address, if it is running. Errors are ignored. -/
def stopServiceAt (removed : List Char) : Run Unit := do
  let w ← get
  match w.app.services.findIdx? (fun s => s.addr = removed) with
  | none => pure ()
  | some serviceIdx =>
    match w.app.services[serviceIdx]? with
    | none => throw .panic
    | some service =>
      if service.status = .running then ignoring (· = .error) (stopService serviceIdx)
      else pure ()

/-- What follows once the selected entry has been taken out of the list. -/
def dropUpf (removed : List Char) : Run Unit := do
  stopServiceAt removed
  sendUpfCommand "remove".toList removed
  onApp App.syncServicesWithUpfList
  setMessage ("Removed UPF: ".toList ++ removed)
  onApp App.clampSelected

def removeUpf : Run Unit := do
  let w ← get
  if w.app.upfList ≠ [] ∧ w.app.selectedUpf < w.app.upfList.length then
    match w.app.upfList[w.app.selectedUpf]? with
    | none => throw .panic
    | some removed =>
      onApp fun app => { app with upfList := app.upfList.eraseIdx app.selectedUpf }
      dropUpf removed
  else pure ()

def upfsKey (key : Key) : Run Unit :=
  match key.code with
  | .char 'q' => quit
  | .tab => nextTab
  | .char 'a' => onApp fun app => { app with upfInputMode := true, upfInput := [] }
  | .char 'd' => removeUpf
  | .up => onApp fun app => { app with selectedUpf := app.selectedUpf - 1 }
  | .down => onApp fun app =>
    if app.upfList = [] then app
    else { app with selectedUpf := min (app.selectedUpf + 1) (app.upfList.length - 1) }
  | _ => pure ()

/-- `handle_events`, when there is a key. -/
def handleKey (key : Key) : Run Unit := do
  let w ← get
  match w.app.currentTab with
  | .dashboard => dashboardKey key
  | .help => dashboardKey key
  | .logs => logsKey key
  | .tests => testsKey key
  | .upfs => if w.app.upfInputMode then inputKey key else upfsKey key

/-! ### Rounds -/

/-- The status and the logs are followed when enough time has passed. A service may print a line
at any time. -/
inductive Event
  | key (key : Key)
  | refresh
  | followLogs
  | print (name line : List Char)

def Event.handle : Event → Run Unit
  | .key k => handleKey k
  | .refresh => updateServiceStatus
  | .followLogs => updateLogs
  | .print name line => modify (World.onOs (Os.printLine name line))

structure Round where
  surroundings : Surroundings
  event : Event

/-- The state in which the event of a round is handled. -/
def World.enter (r : Round) (w : World) : World :=
  w.onOs fun os => { os with surroundings := r.surroundings }

def Round.run (r : Round) : Run Unit := do
  modify (World.enter r)
  r.event.handle

/-- The main loop, which ends when the user has quit. -/
def mainLoop : List Round → Run Unit
  | [] => pure ()
  | r :: rounds => do
    r.run
    if (← get).app.shouldQuit then pure () else mainLoop rounds

/-- Why the loop stops within these rounds, if something fails. -/
def stops (w₀ : World) (rounds : List Round) : Option Stop :=
  match mainLoop rounds w₀ with
  | .ok _ _ => none
  | .error stop _ => some stop

/-- After these rounds the loop goes on with `w`. -/
def Continues (w₀ : World) (rounds : List Round) (w : World) : Prop :=
  mainLoop rounds w₀ = .ok () w ∧ w.app.shouldQuit = false

/-- Where the loop goes on after these rounds, if it does. -/
def after (w₀ : World) (rounds : List Round) : Option World :=
  match mainLoop rounds w₀ with
  | .ok _ w => if w.app.shouldQuit then none else some w
  | .error _ _ => none

/-- What `main` sets up before the loop. -/
def World.start (os : Os) : World :=
  ⟨App.new.syncServicesWithUpfList.setMessage
    "Welcome! Press 's' to start services, 'h' for help, 'q' to quit".toList, os⟩

/-- A system that has been left alone so far, in which everything goes well. -/
def freshOs : Os where
  pidFiles := Table.empty
  logFiles := Table.empty
  control := []
  processes := []
  others := []
  signals := []
  pids := fun n => 100 + n
  surroundings := ⟨[], ["pfcp-proxy".toList, "test-upf".toList], fun _ => ⟨true, [], []⟩, [], []⟩

/-- Press a key while everything goes well. -/
def press (code : KeyCode) : Round := ⟨freshOs.surroundings, .key ⟨code, false⟩⟩

/-! ### Runs -/

section Runs

variable {w₀ w : World} {r : Round} {x y rounds : List Round}

lemma mainLoop_cons_ok {w₁ : World} (h : r.run w₀ = .ok () w₁) :
    mainLoop (r :: rounds) w₀ =
      if w₁.app.shouldQuit then .ok () w₁ else mainLoop rounds w₁ := by
  simp only [mainLoop, bind, EStateM.bind, h]
  change (if w₁.app.shouldQuit = true then pure () else mainLoop rounds : Run Unit) w₁ = _
  split
  · rfl
  · rfl

lemma mainLoop_cons_error {w₁ : World} {stop : Stop} (h : r.run w₀ = .error stop w₁) :
    mainLoop (r :: rounds) w₀ = .error stop w₁ := by
  simp only [mainLoop, bind, EStateM.bind, h]

lemma continues_nil (h : w₀.app.shouldQuit = false) : Continues w₀ [] w₀ := ⟨rfl, h⟩

lemma continues_of_after (h : after w₀ rounds = some w) :
    Continues w₀ rounds w := by
  unfold after at h
  split at h
  next hok =>
    split at h
    · cases h
    next hquit =>
      cases h
      exact ⟨hok, Bool.eq_false_iff.mpr hquit⟩
  next => cases h

lemma continues_cons : Continues w₀ (r :: rounds) w ↔
    ∃ w₁, r.run w₀ = .ok () w₁ ∧ w₁.app.shouldQuit = false ∧ Continues w₁ rounds w := by
  unfold Continues
  cases h : r.run w₀ with
  | error stop w₁ => simp [mainLoop_cons_error h]
  | ok u w₁ =>
    rw [mainLoop_cons_ok h]
    cases hq : w₁.app.shouldQuit with
    | false => simp [hq]
    | true =>
      simp only [if_true, EStateM.Result.ok.injEq, true_and, exists_eq_left']
      constructor
      · rintro ⟨rfl, hw⟩
        rw [hw] at hq
        cases hq
      · rintro ⟨hw, -⟩
        rw [hw] at hq
        cases hq

lemma mainLoop_append (h : Continues w₀ x w) : mainLoop (x ++ y) w₀ = mainLoop y w := by
  induction x generalizing w₀ with
  | nil =>
    obtain ⟨hw, -⟩ := h
    cases hw
    rfl
  | cons r x ih =>
    obtain ⟨w₁, hr, hquit, hx⟩ := continues_cons.mp h
    rw [List.cons_append, mainLoop_cons_ok hr, hquit]
    exact ih hx

lemma continues_snoc (h₀ : w₀.app.shouldQuit = false) : Continues w₀ (rounds ++ [r]) w ↔
    ∃ w₁, Continues w₀ rounds w₁ ∧ r.run w₁ = .ok () w ∧ w.app.shouldQuit = false := by
  induction rounds generalizing w₀ with
  | nil =>
    rw [List.nil_append, continues_cons]
    constructor
    · rintro ⟨w₁, hr, hquit, hw, -⟩
      cases hw
      exact ⟨w₀, continues_nil h₀, hr, hquit⟩
    · rintro ⟨w₁, ⟨hw, -⟩, hr, hquit⟩
      cases hw
      exact ⟨w, hr, hquit, continues_nil hquit⟩
  | cons r' rounds ih =>
    rw [List.cons_append, continues_cons]
    constructor
    · rintro ⟨w₁, hr', hquit, h⟩
      obtain ⟨w₂, hw₂, hr⟩ := (ih hquit).mp h
      exact ⟨w₂, continues_cons.mpr ⟨w₁, hr', hquit, hw₂⟩, hr⟩
    · rintro ⟨w₂, hw₂, hr⟩
      obtain ⟨w₁, hr', hquit, h⟩ := continues_cons.mp hw₂
      exact ⟨w₁, hr', hquit, (ih hquit).mpr ⟨w₂, h, hr⟩⟩

lemma forall_rounds_of_append {P : List Round → Round → Prop}
    (h : ∀ x' r y', x ++ y = x' ++ r :: y' → P x' r) : ∀ x' r y', x = x' ++ r :: y' → P x' r := by
  rintro x' r y' rfl
  exact h x' r (y' ++ y) (by simp)

/-- What every round preserves from its start on holds wherever the loop goes on. -/
lemma Continues.induct {I : World → Prop} (h₀ : w₀.app.shouldQuit = false) (hI : I w₀)
    (hstep : ∀ x r y w w', rounds = x ++ r :: y → Continues w₀ x w → I w → r.run w = .ok () w' →
      I w') (h : Continues w₀ rounds w) : I w := by
  induction rounds using List.reverseRecOn generalizing w with
  | nil =>
    obtain ⟨hw, -⟩ := h
    cases hw
    exact hI
  | append_singleton rounds r ih =>
    obtain ⟨w₁, hw₁, hr, -⟩ := (continues_snoc h₀).mp h
    refine hstep rounds r [] w₁ w rfl hw₁ (ih (fun x r' y w w' hxy => ?_) hw₁) hr
    exact hstep x r' (y ++ [r]) w w' (by rw [hxy, List.append_assoc, List.cons_append])

end Runs

end PfcpProxy.Manager
