import PfcpProxy.ControlConvergence
import PfcpProxy.UpfMirror

/-!
# The control files of the two programs

`send_upf_command` appends to `.upf_control` in the parent of the build directory, and the monitor
of a proxy reads `.upf_control` in the directory it works in. A proxy that the manager starts works
where the manager does, and these are two files; they are one file if the proxy works in `target`.
Paths are lists of names here, from the root on and without symbolic links.
-/

namespace PfcpProxy

/-- The directory names on the way from the root. -/
abbrev Directory := List (List Char)

/-- The file of the monitor in `run_proxy`: `Path::new(".upf_control")`. -/
def Monitor.controlFilePath (workingDir : Directory) : List (List Char) :=
  workingDir ++ [".upf_control".toList]

namespace Manager

/-- `build_dir` of the manager. -/
def buildDir (baseDir : Directory) : Directory := baseDir ++ ["target".toList, "release".toList]

/-- The file that `send_upf_command` appends to: `build_dir.parent().join(".upf_control")`. -/
def controlFilePath (baseDir : Directory) : List (List Char) :=
  (buildDir baseDir).dropLast ++ [".upf_control".toList]

/-- Both programs use one file exactly if the proxy works in `target` of the manager's directory. -/
lemma controlFilePath_eq_iff (baseDir workingDir : Directory) :
    controlFilePath baseDir = Monitor.controlFilePath workingDir ↔
      workingDir = baseDir ++ ["target".toList] := by
  have hparent : (buildDir baseDir).dropLast = baseDir ++ ["target".toList] := by
    rw [buildDir, List.dropLast_append_of_ne_nil (by simp)]
    rfl
  rw [controlFilePath, hparent, Monitor.controlFilePath, List.append_left_inj]
  exact eq_comm

/-! ### Runs of both programs -/

/-- What the monitor's file gets when the manager goes on from `w` to `w'`. -/
def Receives (baseDir workingDir : Directory) (w w' : World) (commands : List Command) : Prop :=
  if controlFilePath baseDir = Monitor.controlFilePath workingDir then
    w'.os.control = w.os.control ++ controlFile commands
  else commands = []

lemma receives_iff_of_eq {baseDir workingDir : Directory} {w w' : World} {commands : List Command}
    (hone : workingDir = baseDir ++ ["target".toList]) :
    Receives baseDir workingDir w w' commands ↔
      w'.os.control = w.os.control ++ controlFile commands := by
  rw [Receives, if_pos ((controlFilePath_eq_iff baseDir workingDir).mpr hone)]

lemma receives_iff_of_ne {baseDir workingDir : Directory} {w w' : World} {commands : List Command}
    (htwo : workingDir ≠ baseDir ++ ["target".toList]) :
    Receives baseDir workingDir w w' commands ↔ commands = [] := by
  rw [Receives, if_neg (mt (controlFilePath_eq_iff baseDir workingDir).mp htwo)]

/-- A run of the manager in `baseDir` beside a proxy in `workingDir`, with the steps of the
proxy's monitor. -/
inductive Alongside (baseDir workingDir : Directory) (w₀ : World) :
    List Round → World → List MonitorStep → Prop
  | start : Alongside baseDir workingDir w₀ [] w₀ []
  | manager {rounds rounds' : List Round} {w w' : World} {steps : List MonitorStep}
      {commands : List Command} (h : Alongside baseDir workingDir w₀ rounds w steps)
      (hgoes : Continues w rounds' w') (hgets : Receives baseDir workingDir w w' commands) :
      Alongside baseDir workingDir w₀ (rounds ++ rounds') w' (steps ++ commands.map .append)
  | monitor {rounds : List Round} {w : World} {steps : List MonitorStep} {st : MonitorStep}
      (h : Alongside baseDir workingDir w₀ rounds w steps) (hst : ∀ command, st ≠ .append command) :
      Alongside baseDir workingDir w₀ rounds w (steps ++ [st])

/-- The monitor has read all of its file, no reading has failed, the lines have 20 bytes on average
at most, and the pool has room for all that has been added. -/
structure CaughtUp (p₀ : UpfPool) (steps : List MonitorStep) : Prop where
  reads : .read false ∉ steps
  short : ShortLines (Monitor.after p₀ steps).appended
  room : p₀.HasRoom (additions (Monitor.after p₀ steps).appended)
  seen : (Monitor.after p₀ steps).SeenAll

section Runs

variable {p₀ : UpfPool} {w₀ w : World} {rounds : List Round} {steps : List MonitorStep}
  {baseDir workingDir : Directory}

lemma appended_map_append (commands : List Command) :
    (Monitor.after p₀ (steps ++ commands.map .append)).appended =
      (Monitor.after p₀ steps).appended ++ commands := by
  induction commands using List.reverseRecOn with
  | nil => simp
  | append_singleton commands command ih =>
    rw [List.map_append, List.map_singleton, ← List.append_assoc, Monitor.after_snoc,
      ← List.append_assoc, ← ih]
    rfl

lemma calls_of_appended_nil (happ : (Monitor.after p₀ steps).appended = []) :
    (Monitor.after p₀ steps).calls = [] := by
  induction steps using List.reverseRecOn with
  | nil => rfl
  | append_singleton steps st ih =>
    have hprefix : (Monitor.after p₀ steps).appended <+:
        (Monitor.after p₀ (steps ++ [st])).appended := appended_of_append steps [st]
    rw [happ, List.prefix_nil] at hprefix
    have hcalls := ih hprefix
    have hnew : (Monitor.after p₀ steps).newCalls = [] := by
      rw [(Monitor.consistent_after steps).newCalls, hprefix]
      simp
    rw [Monitor.after_snoc]
    cases st with
    | append command => exact hcalls
    | metadata ok =>
      unfold Monitor.step
      dsimp only
      split <;> exact hcalls
    | read ok =>
      unfold Monitor.step
      dsimp only
      split
      · exact hcalls
      · split
        · rw [hcalls, hnew]
          rfl
        · exact hcalls
    | updateHealth addr status => exact hcalls

lemma Alongside.continues (h : Alongside baseDir workingDir w₀ rounds w steps)
    (hquit : w₀.app.shouldQuit = false) : Continues w₀ rounds w := by
  induction h with
  | start => exact continues_nil hquit
  | manager _ hgoes _ ih =>
    obtain ⟨hrun, hquit'⟩ := hgoes
    exact ⟨(mainLoop_append ih).trans hrun, hquit'⟩
  | monitor _ _ ih => exact ih

/-- Whatever the manager goes on with, as long as it takes in new addresses only, a run beside the
proxy goes on with it too. -/
lemma Alongside.goes_on {rounds' : List Round} {w' : World}
    (h : Alongside baseDir workingDir w₀ rounds w steps) (hsame : SameAddresses w₀.app.upfList p₀)
    (hcontrol : w₀.os.control = []) (hquit : w₀.app.shouldQuit = false)
    (hnew : AddsNewAddresses w₀ (rounds ++ rounds')) (hgoes : Continues w rounds' w') :
    ∃ commands : List Command, Alongside baseDir workingDir w₀ (rounds ++ rounds') w'
      (steps ++ commands.map .append) := by
  have hw := h.continues hquit
  have h₀ : Mirror [] p₀ w₀ := hcontrol ▸ mirror_start hsame
  have hlist := (hnew.of_append.mirror h₀ hquit hw).sameAddresses
  have hnew' : AddsNewAddresses w rounds' := by
    rintro x r y rfl w₁ hx
    exact hnew (rounds ++ x) r y (by simp) w₁ ⟨(mainLoop_append hw).trans hx.1, hx.2⟩
  obtain ⟨commands, hwritten, _⟩ := hnew'.mirror (mirror_start hlist) hw.2 hgoes
  by_cases hone : workingDir = baseDir ++ ["target".toList]
  · exact ⟨commands, h.manager hgoes ((receives_iff_of_eq hone).mpr hwritten)⟩
  · exact ⟨[], h.manager hgoes ((receives_iff_of_ne hone).mpr rfl)⟩

lemma Alongside.control_eq (h : Alongside baseDir workingDir w₀ rounds w steps)
    (hone : workingDir = baseDir ++ ["target".toList]) :
    w.os.control = w₀.os.control ++ controlFile (Monitor.after p₀ steps).appended := by
  induction h with
  | start => exact (List.append_nil _).symm
  | manager _ _ hgets ih =>
    rw [(receives_iff_of_eq hone).mp hgets, ih, appended_map_append]
    simp [controlFile]
  | monitor _ hst ih => rw [ih, Monitor.after_snoc, Monitor.appended_step_of_ne _ hst]

lemma Alongside.appended_eq_nil (h : Alongside baseDir workingDir w₀ rounds w steps)
    (htwo : workingDir ≠ baseDir ++ ["target".toList]) :
    (Monitor.after p₀ steps).appended = [] := by
  induction h with
  | start => rfl
  | manager _ _ hgets ih =>
    rw [appended_map_append, ih, (receives_iff_of_ne htwo).mp hgets]
    rfl
  | monitor _ hst ih => rw [Monitor.after_snoc, Monitor.appended_step_of_ne _ hst, ih]

lemma Alongside.addrs_eq (h : Alongside baseDir workingDir w₀ rounds w steps)
    (htwo : workingDir ≠ baseDir ++ ["target".toList]) :
    (Monitor.after p₀ steps).upfPool.addrs = p₀.addrs := by
  have hcalls : (Monitor.after p₀ steps).calls = [] :=
    calls_of_appended_nil (h.appended_eq_nil htwo)
  have hc : Monitor.Consistent p₀ (Monitor.after p₀ steps) := Monitor.consistent_after steps
  have haddrs := hc.upfPool.1
  rwa [hcalls] at haddrs

/-- Where they use one file, a monitor that has caught up has brought the pool to the addresses of
the manager's list. -/
lemma Alongside.mem_denoted_iff (h : Alongside baseDir workingDir w₀ rounds w steps)
    (hsame : SameAddresses w₀.app.upfList p₀) (hcontrol : w₀.os.control = [])
    (hquit : w₀.app.shouldQuit = false) (hone : workingDir = baseDir ++ ["target".toList])
    (hnew : AddsNewAddresses w₀ rounds) (hcaught : CaughtUp p₀ steps) (addr : SocketAddr) :
    addr ∈ denoted w.app.upfList ↔ addr ∈ (Monitor.after p₀ steps).upfPool.addrs := by
  have h₀ : Mirror [] p₀ w₀ := hcontrol ▸ mirror_start hsame
  have hlist := (hnew.mirror h₀ hquit (h.continues hquit)).sameAddresses
  have hfile : w.os.control = controlFile (Monitor.after p₀ steps).appended := by
    rw [h.control_eq hone, hcontrol, List.nil_append]
  have hdelivered : delivered p₀ w =
      p₀.afterCalls ((Monitor.after p₀ steps).appended.map Command.call) := by
    rw [delivered, hfile, lines_controlFile, filterMap_lineCall]
  rw [hlist.same addr, hdelivered]
  exact ((settled_after hcaught.reads hcaught.short).1.mem_iff (Monitor.consistent_after steps)
    hcaught.seen hcaught.room addr).symm

/-- The manager's list and the pool converge where both programs use one file: once the monitor has
caught up with a run in which the manager takes in new addresses only, they hold the same
addresses. In every other set-up the pool keeps its addresses, whatever the manager does. -/
theorem list_and_pool_converge (hsame : SameAddresses w₀.app.upfList p₀)
    (hcontrol : w₀.os.control = []) (hquit : w₀.app.shouldQuit = false)
    (h : Alongside baseDir workingDir w₀ rounds w steps) :
    (workingDir = baseDir ++ ["target".toList] → AddsNewAddresses w₀ rounds → CaughtUp p₀ steps →
      ∀ addr, addr ∈ denoted w.app.upfList ↔ addr ∈ (Monitor.after p₀ steps).upfPool.addrs) ∧
    (workingDir ≠ baseDir ++ ["target".toList] →
      (Monitor.after p₀ steps).upfPool.addrs = p₀.addrs) :=
  ⟨fun hone hnew hcaught => h.mem_denoted_iff hsame hcontrol hquit hone hnew hcaught, h.addrs_eq⟩

end Runs

/-- Where an entry is added, its address is new. -/
def addsNew (w : World) (r : Round) : Bool :=
  w.app.request r.event ≠ .addUpf ||
    (parseSocketAddr w.app.upfInput).any fun addr => addr ∉ denoted w.app.upfList

lemma addsNewAddresses_of_all {w₀ : World} {rounds : List Round}
    (h : ∀ n < rounds.length, ∀ r ∈ rounds[n]?, ∀ w ∈ after w₀ (rounds.take n), addsNew w r) :
    AddsNewAddresses w₀ rounds := by
  rintro x r y rfl w hw hadd _
  have hafter : after w₀ x = some w := by
    rw [after, hw.1]
    simp [hw.2]
  have hnew := h x.length (by simp) r (by simp) w (by simpa using hafter)
  simpa [addsNew, hadd, Option.any_eq_true] using hnew

lemma addsNewAddresses_adding : AddsNewAddresses (World.start freshOs) addingRounds :=
  addsNewAddresses_of_all (by decide +kernel)

def addedUpf : Command :=
  ⟨.add, "127.0.0.1:8809".toList, .v4 0x7f000001 8809, by decide +kernel⟩

/-- A tick that finds the file grown, and a heartbeat of the new backend. -/
def tickAndHeartbeat : List MonitorStep :=
  [.metadata true, .read true, .updateHealth addedUpf.addr .healthy]

/-- The addition is read, and the new backend answers. -/
def catchingUp : List MonitorStep := .append addedUpf :: tickAndHeartbeat

lemma caughtUp_catchingUp : CaughtUp startedPool catchingUp :=
  ⟨by simp [catchingUp, tickAndHeartbeat], by decide +kernel, show _ ≤ _ by decide +kernel,
    by decide +kernel⟩

lemma Alongside.tickAndHeartbeat {baseDir workingDir : Directory} {w₀ w : World}
    {rounds : List Round} {steps : List MonitorStep}
    (h : Alongside baseDir workingDir w₀ rounds w steps) :
    Alongside baseDir workingDir w₀ rounds w (steps ++ tickAndHeartbeat) := by
  have hmetadata : Alongside baseDir workingDir w₀ rounds w (steps ++ [.metadata true]) :=
    h.monitor (by simp)
  have hread : Alongside baseDir workingDir w₀ rounds w
      ((steps ++ [.metadata true]) ++ [.read true]) := hmetadata.monitor (by simp)
  have hheartbeat : Alongside baseDir workingDir w₀ rounds w
      (((steps ++ [.metadata true]) ++ [.read true]) ++
        [.updateHealth addedUpf.addr .healthy]) := hread.monitor (by simp)
  simpa [Manager.tickAndHeartbeat] using hheartbeat

/-- The user adds an UPF beside a proxy in `target`, and beside one that the manager has started. -/
lemma alongside_adding : ∃ w,
    Alongside [] ["target".toList] (World.start freshOs) addingRounds w catchingUp ∧
    Alongside [] [] (World.start freshOs) addingRounds w tickAndHeartbeat := by
  have hafter : (after (World.start freshOs) addingRounds).any fun w =>
      w.os.control = (World.start freshOs).os.control ++ controlFile [addedUpf] := by decide +kernel
  obtain ⟨w, hw, hfile⟩ := (Option.any_eq_true _ _).mp hafter
  have hgoes := continues_of_after hw
  have hone : Receives [] ["target".toList] (World.start freshOs) w [addedUpf] :=
    (receives_iff_of_eq rfl).mpr (of_decide_eq_true hfile)
  have htwo : Receives [] [] (World.start freshOs) w [] := (receives_iff_of_ne (by simp)).mpr rfl
  exact ⟨w, (Alongside.start.manager hgoes hone).tickAndHeartbeat,
    (Alongside.start.manager hgoes htwo).tickAndHeartbeat⟩

theorem list_and_pool_converge_added : ∃ w,
    Alongside [] ["target".toList] (World.start freshOs) addingRounds w catchingUp ∧
    (addedUpf.addr ∈ denoted w.app.upfList ↔
      addedUpf.addr ∈ (Monitor.after startedPool catchingUp).upfPool.addrs) ∧
    (Monitor.after startedPool tickAndHeartbeat).upfPool.addrs = startedPool.addrs := by
  obtain ⟨w, hone, htwo⟩ := alongside_adding
  refine ⟨w, hone, ?_, ?_⟩
  · exact (list_and_pool_converge (sameAddresses_start freshOs) rfl rfl hone).1 rfl
      addsNewAddresses_adding caughtUp_catchingUp _
  · exact (list_and_pool_converge (sameAddresses_start freshOs) rfl rfl htwo).2 (by simp)

end Manager

end PfcpProxy
