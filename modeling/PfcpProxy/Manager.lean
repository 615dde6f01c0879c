import PfcpProxy.Lib.Conditions
import PfcpProxy.Lib.Table

/-!
# Service manager

The state of the terminal manager (`App`), the system around it (`Os`), and the operations that
start and stop services, follow their status and logs, and write commands for the proxy. What the
system does during a round of the main loop is given beforehand (`Surroundings`).
-/

namespace PfcpProxy.Manager

open Conditions

def proxyAddr : List Char := "127.0.0.1:8805".toList
def upf1Addr : List Char := "127.0.0.1:8806".toList
def upf2Addr : List Char := "127.0.0.1:8807".toList
def upf3Addr : List Char := "127.0.0.1:8808".toList
def maxLogLines : ℕ := 1000

def proxyName : List Char := "pfcp-proxy".toList

abbrev Pid := ℕ

/-- A number in decimal digits. -/
def decimal (n : ℕ) : List Char := Nat.toDigits 10 n

/-! ### The state of the manager -/

inductive ServiceStatus
  | stopped
  | starting
  | running
  | stopping
  | error
  deriving DecidableEq, Repr

structure ServiceInfo where
  name : List Char
  status : ServiceStatus
  pid : Option Pid
  addr : List Char
  deriving DecidableEq, Repr

inductive Tab
  | dashboard
  | logs
  | tests
  | upfs
  | help
  deriving DecidableEq, Repr

def Tab.all : List Tab := [.dashboard, .logs, .tests, .upfs, .help]

structure App where
  services : List ServiceInfo
  currentTab : Tab
  logs : List (List Char)
  logScroll : ℕ
  message : Option (List Char)
  shouldQuit : Bool
  selectedTest : ℕ
  autoScrollLogs : Bool
  upfInput : List Char
  upfInputMode : Bool
  upfList : List (List Char)
  selectedUpf : ℕ
  deriving DecidableEq, Repr

/-- `format!("upf{}", idx + 1)` -/
def upfName (idx : ℕ) : List Char := "upf".toList ++ decimal (idx + 1)

namespace App

def new : App where
  services :=
    [⟨proxyName, .stopped, none, proxyAddr⟩, ⟨upfName 0, .stopped, none, upf1Addr⟩,
      ⟨upfName 1, .stopped, none, upf2Addr⟩, ⟨upfName 2, .stopped, none, upf3Addr⟩]
  currentTab := .dashboard
  logs := []
  logScroll := 0
  message := none
  shouldQuit := false
  selectedTest := 0
  autoScrollLogs := true
  upfInput := []
  upfInputMode := false
  upfList := [upf1Addr, upf2Addr, upf3Addr]
  selectedUpf := 0

def setMessage (msg : List Char) (app : App) : App := { app with message := some msg }

/-- The service of an entry of the UPF list. It keeps the status of a service at its address. -/
def serviceFor (services : List ServiceInfo) (idx : ℕ) (upfAddr : List Char) : ServiceInfo :=
  let existingService := services.find? (fun s => s.addr = upfAddr)
  { name := upfName idx
    status := (existingService.map (·.status)).getD .stopped
    pid := existingService.bind (·.pid)
    addr := upfAddr }

/-- The proxy, which keeps its status, and a service for each entry of the UPF list. -/
def servicesFor (services : List ServiceInfo) (upfList : List (List Char)) : List ServiceInfo :=
  let proxyService : ServiceInfo :=
    { name := proxyName
      status := (services.head?.map (·.status)).getD .stopped
      pid := services.head?.bind (·.pid)
      addr := proxyAddr }
  proxyService :: upfList.mapIdx (serviceFor services)

def syncServicesWithUpfList (app : App) : App :=
  { app with services := servicesFor app.services app.upfList }

/-- Select the entry before, if nothing is left at the selected position. -/
def clampSelected (app : App) : App :=
  if app.upfList.length ≤ app.selectedUpf ∧ 0 < app.selectedUpf then
    { app with selectedUpf := app.selectedUpf - 1 }
  else app

def setService (serviceIdx : ℕ) (status : ServiceStatus) (pid : Option Pid) (app : App) : App :=
  { app with
    services := app.services.modify serviceIdx fun s => { s with status := status, pid := pid } }

def addLog (line : List Char) (app : App) : App :=
  let logs := (if maxLogLines ≤ app.logs.length then app.logs.tail else app.logs) ++ [line]
  { app with
    logs := logs
    logScroll := if app.autoScrollLogs then logs.length - 1 else app.logScroll }

def clearLogs (app : App) : App := { app with logs := [], logScroll := 0 }

def scrollLogsUp (app : App) : App :=
  { app with autoScrollLogs := false, logScroll := app.logScroll - 1 }

def scrollLogsDown (app : App) : App :=
  { app with
    autoScrollLogs := false
    logScroll := min (app.logScroll + 1) (app.logs.length - 1) }

def enableAutoScroll (app : App) : App :=
  { app with autoScrollLogs := true, logScroll := app.logs.length - 1 }

end App

/-! ### The system -/

/-- What a program that has run to its end has printed, in lines. -/
structure Output where
  success : Bool
  stdout : List (List Char)
  stderr : List (List Char)

/-- What the system does during a round of the main loop. -/
structure Surroundings where
  /-- The outcomes of the next I/O operations. All later ones succeed. -/
  outcomes : List Bool
  /-- The programs in `target/release`. -/
  programs : List (List Char)
  /-- What comes of a command line that is run to its end. -/
  output : List (List Char) → Output
  /-- The processes that end within 500 ms when they are asked to. -/
  heeds : List Pid
  /-- The processes that are still found after they have ended. -/
  lingers : List Pid

structure Process where
  pid : Pid
  program : List Char
  args : List (List Char)
  alive : Bool

/-- The address that the process was started for, which follows `--listen`. -/
def Process.addr (p : Process) : List Char := p.args[1]?.getD []

structure Os where
  /-- The files `<name>.pid`, as `trim` and `parse` read them. -/
  pidFiles : Table (List Char) (Option Pid)
  /-- The lines of the files `<name>.log`. -/
  logFiles : Table (List Char) (List (List Char))
  /-- The control file. -/
  control : List Char
  /-- The processes that the manager has started, in order. -/
  processes : List Process
  /-- The other processes of the system. -/
  others : List Pid
  /-- The signals sent, and whether they were forced. -/
  signals : List (Pid × Bool)
  /-- The ids that the system gives to new processes. -/
  pids : ℕ → Pid
  surroundings : Surroundings

namespace Os

def hasProgram (program : List Char) (os : Os) : Bool := os.surroundings.programs.contains program

/-- Whether `kill -0` finds the process. -/
def finds (pid : Pid) (os : Os) : Bool :=
  os.others.contains pid ||
    os.processes.any fun p => p.pid = pid && (p.alive || os.surroundings.lingers.contains pid)

/-- A process that gets a signal ends if the signal is forced or if the process heeds it. -/
def signal (pid : Pid) (force : Bool) (os : Os) : Os :=
  let ends := force || os.surroundings.heeds.contains pid
  { os with
    signals := os.signals ++ [(pid, force)]
    processes := os.processes.map fun p =>
      if p.pid = pid then { p with alive := p.alive && !ends } else p
    others := os.others.filter fun other => !(other = pid && ends) }

def nextPid (os : Os) : Pid := os.pids os.processes.length

def spawn (program : List Char) (args : List (List Char)) (os : Os) : Os :=
  { os with processes := os.processes ++ [⟨os.nextPid, program, args, true⟩] }

def writePid (name : List Char) (pid : Pid) (os : Os) : Os :=
  { os with pidFiles := os.pidFiles.insert name (some pid) }

def removePid (name : List Char) (os : Os) : Os :=
  { os with pidFiles := os.pidFiles.remove name }

/-- `File::create` on the log file. -/
def createLog (name : List Char) (os : Os) : Os :=
  { os with logFiles := os.logFiles.insert name [] }

/-- A service prints a line. -/
def printLine (name line : List Char) (os : Os) : Os :=
  { os with logFiles := os.logFiles.insert name ((os.logFiles.get name).getD [] ++ [line]) }

def removeLogs (os : Os) : Os := { os with logFiles := Table.empty }

def appendControl (command : List Char) (os : Os) : Os :=
  { os with control := os.control ++ command }

end Os

/-! ### Operations -/

structure World where
  app : App
  os : Os

namespace World

def onApp (f : App → App) (w : World) : World := { w with app := f w.app }

def onOs (f : Os → Os) (w : World) : World := { w with os := f w.os }

end World

/-- Why the manager stops: a panic, or an error that `main` returns. -/
inductive Stop
  | panic
  | error
  deriving DecidableEq, Repr

abbrev Run := EStateM Stop World

def onApp (f : App → App) : Run Unit := modify (World.onApp f)

def setMessage (msg : List Char) : Run Unit := onApp (App.setMessage msg)

/-- Whether the next I/O operation succeeds. -/
def outcome : Run Bool :=
  modifyGet fun w =>
    match w.os.surroundings.outcomes with
    | [] => (true, w)
    | ok :: outcomes => (ok, w.onOs fun os =>
        { os with surroundings := { os.surroundings with outcomes := outcomes } })

/-- An I/O operation whose error is handed on. -/
def attempt (f : Os → Os) : Run Unit := do
  if ← outcome then modify (World.onOs f) else throw .error

/-- An I/O operation whose error is ignored. -/
def tryTo (f : Os → Os) : Run Unit := do
  if ← outcome then modify (World.onOs f) else pure ()

def processExists (pid : Pid) : Run Bool := do
  let ok ← outcome
  let w ← get
  pure (ok && w.os.finds pid)

def killProcess (pid : Pid) (force : Bool) : Run Unit := attempt (Os.signal pid force)

/-- Ask the process to end, and force it if it is still found after that. -/
def endProcess (pid : Pid) : Run Unit := do
  killProcess pid false
  if ← processExists pid then killProcess pid true else pure ()

/-- What `update_service_status` makes of one service. -/
def refreshService (service : ServiceInfo) : Run ServiceInfo := do
  let w ← get
  let ok ← outcome
  match w.os.pidFiles.get service.name with
  | some (some pid) =>
    if ok then
      if ← processExists pid then pure { service with status := .running, pid := some pid }
      else
        tryTo (Os.removePid service.name)
        pure { service with status := .stopped, pid := none }
    else pure { service with status := .stopped, pid := none }
  | _ => pure { service with status := .stopped, pid := none }

def updateServiceStatus : Run Unit := do
  let w ← get
  let services ← w.app.services.mapM refreshService
  onApp fun app => { app with services := services }

def commaSeparated : List (List Char) → List Char
  | [] => []
  | [x] => x
  | x :: xs => x ++ ',' :: commaSeparated xs

/-- The program of a service and its arguments. -/
def serviceCommand (service : ServiceInfo) : List Char × List (List Char) :=
  if service.name = proxyName then
    ("pfcp-proxy".toList,
      ["--listen".toList, proxyAddr,
        "--backends".toList, commaSeparated [upf1Addr, upf2Addr, upf3Addr],
        "--strategy".toList, "round-robin".toList,
        "--stats-interval".toList, "10".toList,
        "--health-check-interval".toList, "5".toList,
        "--log-level".toList, "info".toList])
  else
    ("test-upf".toList,
      ["--listen".toList, service.addr, "--name".toList, service.name])

def startService (serviceIdx : ℕ) : Run Unit := do
  let w ← get
  match w.app.services[serviceIdx]? with
  | none => pure ()
  | some service =>
    if service.status = .running then
      setMessage (service.name ++ " is already running".toList)
    else
      attempt (Os.createLog service.name)
      -- The file for the error output.
      attempt id
      let os := (← get).os
      attempt (Os.spawn (serviceCommand service).1 (serviceCommand service).2)
      attempt (Os.writePid service.name os.nextPid)
      onApp (App.setService serviceIdx .starting (some os.nextPid))
      setMessage ("Started ".toList ++ service.name ++ " (PID: ".toList ++ decimal os.nextPid ++
        ")".toList)

def stopService (serviceIdx : ℕ) : Run Unit := do
  let w ← get
  match w.app.services[serviceIdx]? with
  | none => pure ()
  | some service =>
    if service.status = .running then
      match service.pid with
      | none => pure ()
      | some pid =>
        endProcess pid
        onApp (App.setService serviceIdx .stopped none)
        tryTo (Os.removePid service.name)
        setMessage ("Stopped ".toList ++ service.name)
    else setMessage (service.name ++ " is not running".toList)

def startAll : Run Unit := do
  let w ← get
  if w.os.hasProgram "pfcp-proxy".toList ∧ w.os.hasProgram "test-upf".toList then
    [1, 2, 3].forM startService
    startService 0
    setMessage "All services started".toList
  else
    setMessage "Binaries not found. Please build the project first (Ctrl+B)".toList

def stopAll : Run Unit := do
  stopService 0
  [1, 2, 3].forM stopService
  setMessage "All services stopped".toList

def restartAll : Run Unit := do
  stopAll
  startAll

/-- The first line of the error output. -/
def Output.firstError (output : Output) : List Char :=
  output.stderr.head?.getD "Unknown error".toList

def buildProject : Run Unit := do
  setMessage "Building project... (this may take a while)".toList
  attempt id
  let w ← get
  let output := w.os.surroundings.output ["cargo".toList, "build".toList, "--release".toList]
  if output.success then setMessage "Build successful!".toList
  else setMessage ("Build failed: ".toList ++ output.firstError)

def addLog (line : List Char) : Run Unit := onApp (App.addLog line)

/-- The name of a test, and its arguments. -/
def testCase : ℕ → Option (String × List String)
  | 0 => some ("Heartbeat Test", ["heartbeat", "--count", "5", "--interval", "1"])
  | 1 => some ("Basic Session Test", ["sessions", "--count", "10"])
  | 2 => some ("Load Balance Test", ["load-balance", "--sessions", "30"])
  | 3 => some ("Session Lifecycle Test", ["sessions", "--count", "20", "--delete"])
  | 4 => some ("Full Test", ["full", "--sessions", "20"])
  | _ => none

/-- Run a test and capture its output. -/
def runTestCase (testName : String) (args : List String) : Run Unit := do
  setMessage ("Running ".toList ++ testName.toList ++ "...".toList)
  attempt id
  let w ← get
  let output := w.os.surroundings.output
    (["test-smf".toList, "--target".toList, proxyAddr] ++ args.map String.toList)
  if output.success then
    setMessage (testName.toList ++ " completed successfully!".toList)
    output.stdout.forM fun line => addLog ("[TEST] ".toList ++ line)
  else
    setMessage (testName.toList ++ " failed: ".toList ++ output.firstError)

/-- There is nothing to run for other numbers. -/
def runTestAt (testIdx : ℕ) : Run Unit :=
  match testCase testIdx with
  | none => pure ()
  | some (testName, args) => runTestCase testName args

def runTest (testIdx : ℕ) : Run Unit := do
  let w ← get
  if w.os.hasProgram "test-smf".toList then
    match w.app.services[0]? with
    | none => throw .panic
    | some proxy =>
      if proxy.status = .running then runTestAt testIdx
      else setMessage "PFCP Proxy is not running. Start services first.".toList
  else setMessage "test-smf binary not found. Build the project first.".toList

def cleanLogs : Run Unit := do
  attempt Os.removeLogs
  -- The directory is created again.
  attempt id
  onApp App.clearLogs
  setMessage "Logs cleaned".toList

/-- What `update_logs` does for one service. -/
def updateServiceLogs (serviceName : List Char) : Run Unit := do
  let w ← get
  match w.os.logFiles.get serviceName with
  | none => pure ()
  | some lines =>
    if ← outcome then
      (lines.reverse.take 10).reverse.forM fun line =>
        addLog ("[".toList ++ serviceName ++ "] ".toList ++ line)
    else pure ()

def updateLogs : Run Unit := do
  let w ← get
  (w.app.services.map (·.name)).forM updateServiceLogs

/-- `format!("{}:{}\n", action, addr)` -/
def commandLine (action addr : List Char) : List Char := action ++ ':' :: addr ++ ['\n']

def sendUpfCommand (action addr : List Char) : Run Unit := do
  attempt id
  attempt (Os.appendControl (commandLine action addr))
  -- The file is flushed.
  attempt id

end PfcpProxy.Manager
