import PfcpProxy.AddressText
import PfcpProxy.Lib.LogFollower
import PfcpProxy.PoolInvariant

/-!
# Control file

Commands for the pool are appended to a control file (`send_upf_command`). A tick of the monitor
in `run_proxy` looks at the size of the file and, if it has grown, reads all of it and skips as
many lines as the last size gives when divided by 20.
-/

namespace PfcpProxy

open Text LogFollower

/-! ### Commands -/

inductive Action
  | add
  | remove
  deriving DecidableEq, Repr

def Action.word : Action → List Char
  | .add => "add".toList
  | .remove => "remove".toList

def Action.call (addr : SocketAddr) : Action → PoolCall
  | .add => .addBackend addr
  | .remove => .removeBackend addr

/-- A command of the control file, with an address that is accepted. -/
structure Command where
  action : Action
  text : List Char
  addr : SocketAddr
  parses : parseSocketAddr text = some addr

namespace Command

def call (command : Command) : PoolCall := command.action.call command.addr

def line (command : Command) : List Char := command.action.word ++ ':' :: command.text

end Command

/-- What `send_upf_command` has written when it was called with these commands. -/
def controlFile (commands : List Command) : List Char :=
  (commands.map Command.line).flatMap (· ++ ['\n'])

/-- What a line of the control file calls; lines that are not understood call nothing. -/
def lineCall (line : List Char) : Option PoolCall :=
  match splitOnce ':' line with
  | none => none
  | some (action, addr) =>
    match parseSocketAddr addr with
    | none => none
    | some socketAddr =>
      if action = "add".toList then some (.addBackend socketAddr)
      else if action = "remove".toList then some (.removeBackend socketAddr)
      else none

/-- `metadata.len()`: the bytes of the text. -/
def byteLen (s : List Char) : ℕ := (s.map Char.utf8Size).sum

/-! ### The monitor -/

/-- The file, the monitor and the pool, with a record of what was appended and called. -/
structure Monitor where
  contents : List Char
  lastSize : ℕ
  /-- The size that a tick has seen to have grown, until it has read the file. -/
  currentSize : Option ℕ
  upfPool : UpfPool
  appended : List Command
  calls : List PoolCall
  /-- How many commands the last reading has seen. -/
  seen : ℕ

/-- The operations of a tick may fail. A health update comes from a task that handles a
heartbeat. -/
inductive MonitorStep
  | append (command : Command)
  | metadata (ok : Bool)
  | read (ok : Bool)
  | updateHealth (addr : SocketAddr) (status : HealthStatus)

namespace Monitor

def start (p₀ : UpfPool) : Monitor := ⟨[], 0, none, p₀, [], [], 0⟩

/-- The calls of a reading: `contents.lines().skip(last_size / 20)`. -/
def newCalls (s : Monitor) : List PoolCall :=
  ((lines s.contents).drop (s.lastSize / 20)).filterMap lineCall

def step (s : Monitor) : MonitorStep → Monitor
  | .append command =>
    { s with
      contents := s.contents ++ (command.line ++ ['\n'])
      appended := s.appended ++ [command] }
  | .metadata ok =>
    if ok ∧ s.currentSize = none ∧ s.lastSize < byteLen s.contents then
      { s with currentSize := some (byteLen s.contents) }
    else s
  | .read ok =>
    match s.currentSize with
    | none => s
    | some currentSize =>
      if ok then
        -- What is appended while the lines are processed is not among them.
        { s with
          lastSize := currentSize
          currentSize := none
          upfPool := s.upfPool.afterCalls s.newCalls
          calls := s.calls ++ s.newCalls
          seen := s.appended.length }
      else { s with lastSize := currentSize, currentSize := none }
  | .updateHealth addr status => { s with upfPool := s.upfPool.updateHealth addr status }

def after (p₀ : UpfPool) (steps : List MonitorStep) : Monitor := steps.foldl step (start p₀)

/-- The last reading has seen the whole file. -/
def SeenAll (s : Monitor) : Prop := s.seen = s.appended.length

instance (s : Monitor) : Decidable s.SeenAll :=
  inferInstanceAs (Decidable (s.seen = s.appended.length))

/-- The appended commands have been called each once and in file order, and the pool has the
addresses that they leave of the initial pool. -/
def Exact (p₀ : UpfPool) (s : Monitor) : Prop :=
  s.calls = s.appended.map Command.call ∧
    s.upfPool.addrs = (p₀.afterCalls (s.appended.map Command.call)).addrs

end Monitor

/-- Whenever the whole file has been seen, its commands have been called exactly once. -/
def ExactlyOnce (p₀ : UpfPool) (steps : List MonitorStep) : Prop :=
  ∀ x y, steps = x ++ y → (Monitor.after p₀ x).SeenAll → (Monitor.after p₀ x).Exact p₀

/-- Where a tick reads the file, the last size divided by 20 is the number of commands that the
last reading has seen, or no less than it where that one has seen them all. -/
def ResumesWhereLeft (p₀ : UpfPool) (steps : List MonitorStep) : Prop :=
  ∀ x y, steps = x ++ .read true :: y → (Monitor.after p₀ x).currentSize ≠ none →
    min ((Monitor.after p₀ x).lastSize / 20) (Monitor.after p₀ x).appended.length =
      (Monitor.after p₀ x).seen

/-! ### What a line calls -/

lemma colon_not_mem_word (action : Action) : ':' ∉ action.word := by
  cases action <;> decide

lemma lineCall_line (command : Command) : lineCall command.line = some command.call := by
  unfold lineCall Command.line Command.call
  rw [splitOnce_append (colon_not_mem_word _)]
  simp only [command.parses]
  cases command.action with
  | add => rfl
  | remove => rfl

lemma filterMap_lineCall (commands : List Command) :
    (commands.map Command.line).filterMap lineCall = commands.map Command.call := by
  rw [List.filterMap_map, ← List.filterMap_eq_map]
  congr 1
  funext command
  exact lineCall_line command

lemma noBreak_line (command : Command) : '\n' ∉ command.line ∧ '\r' ∉ command.line := by
  have haddr := isAddressChar_of_parse command.parses
  have htext : '\n' ∉ command.text ∧ '\r' ∉ command.text :=
    ⟨fun h => absurd (haddr _ h) (by decide), fun h => absurd (haddr _ h) (by decide)⟩
  have hword : '\n' ∉ command.action.word ∧ '\r' ∉ command.action.word := by
    cases command.action <;> decide
  simp [Command.line, htext, hword]

lemma lines_controlFile (commands : List Command) :
    lines (controlFile commands) = commands.map Command.line := by
  apply lines_flatMap
  intro l hl
  obtain ⟨command, _, rfl⟩ := List.mem_map.mp hl
  exact noBreak_line command

lemma controlFile_snoc (commands : List Command) (command : Command) :
    controlFile (commands ++ [command]) =
      controlFile commands ++ (command.line ++ ['\n']) := by
  simp [controlFile]

/-! ### The pool -/

/-- Two pools have the same addresses and the same cap. -/
def SameAddrs (p p' : UpfPool) : Prop := p.addrs = p'.addrs ∧ p.maxBackends = p'.maxBackends

lemma SameAddrs.apply {p p' : UpfPool} (h : SameAddrs p p') (call : PoolCall) :
    SameAddrs (call.apply p) (call.apply p') := by
  obtain ⟨ha, hm⟩ := h
  have hlen : p.backends.length = p'.backends.length := by
    simpa [UpfPool.addrs] using congrArg List.length ha
  refine ⟨?_, by rw [UpfPool.apply_maxBackends, UpfPool.apply_maxBackends, hm]⟩
  cases call with
  | addBackend a => simp only [PoolCall.apply, UpfPool.addrs_addBackend, ha, hm, hlen]
  | removeBackend a => simp only [PoolCall.apply, UpfPool.addrs_removeBackend, ha]
  | updateHealth a st => simp only [PoolCall.apply, UpfPool.addrs_updateHealth, ha]

lemma SameAddrs.afterCalls {p p' : UpfPool} (h : SameAddrs p p') (calls : List PoolCall) :
    SameAddrs (p.afterCalls calls) (p'.afterCalls calls) := by
  induction calls generalizing p p' with
  | nil => exact h
  | cons call calls ih => exact ih (h.apply call)

namespace Monitor

variable {p₀ : UpfPool}

/-- The file is made of the appended commands, and the pool of the calls. -/
structure Consistent (p₀ : UpfPool) (s : Monitor) : Prop where
  contents : s.contents = controlFile s.appended
  upfPool : SameAddrs s.upfPool (p₀.afterCalls s.calls)

lemma Consistent.step {s : Monitor} (h : Consistent p₀ s) (st : MonitorStep) :
    Consistent p₀ (s.step st) := by
  obtain ⟨hc, hp⟩ := h
  cases st with
  | append command =>
    constructor
    · simp only [Monitor.step, hc, controlFile_snoc]
    · exact hp
  | metadata ok =>
    unfold Monitor.step
    dsimp only
    split
    · exact ⟨hc, hp⟩
    · exact ⟨hc, hp⟩
  | read ok =>
    unfold Monitor.step
    dsimp only
    split
    · exact ⟨hc, hp⟩
    split
    · refine ⟨hc, ?_⟩
      have hcalls := hp.afterCalls s.newCalls
      simpa only [UpfPool.afterCalls, List.foldl_append] using hcalls
    · exact ⟨hc, hp⟩
  | updateHealth addr status =>
    refine ⟨hc, ?_, hp.2⟩
    simp only [Monitor.step, UpfPool.addrs_updateHealth]
    exact hp.1

lemma after_snoc (steps : List MonitorStep) (st : MonitorStep) :
    after p₀ (steps ++ [st]) = (after p₀ steps).step st := by
  simp [after, List.foldl_append]

lemma consistent_after (steps : List MonitorStep) : Consistent p₀ (after p₀ steps) := by
  induction steps using List.reverseRecOn with
  | nil => exact ⟨rfl, rfl, rfl⟩
  | append_singleton steps st ih =>
    rw [after_snoc]
    exact ih.step st

/-- A reading calls the commands from the position on that the last size gives. -/
lemma Consistent.newCalls {s : Monitor} (h : Consistent p₀ s) :
    s.newCalls = (s.appended.map Command.call).drop (s.lastSize / 20) := by
  rw [Monitor.newCalls, h.contents, lines_controlFile, ← List.map_drop, filterMap_lineCall,
    List.map_drop]

/-! ### The monitor as a follower -/

/-- The calls made are those of the commands that the last reading has seen. -/
def Follows (s : Monitor) : Prop := Following (s.appended.map Command.call) s.calls s.seen

/-- Where the whole file has been seen, following it is calling its commands exactly once. -/
lemma Consistent.exact_iff {s : Monitor} (h : Consistent p₀ s) (hseen : s.SeenAll) :
    s.Exact p₀ ↔ s.Follows := by
  have hlen : s.seen = (s.appended.map Command.call).length := by
    rw [List.length_map]
    exact hseen
  rw [Follows, hlen, following_all]
  constructor
  · exact fun he => he.1
  · intro hcalls
    refine ⟨hcalls, ?_⟩
    rw [← hcalls]
    exact h.upfPool.1

/-- A reading goes on following the file if and only if it resumes where the last one has
ended. -/
lemma Consistent.follows_read_iff {s : Monitor} (h : Consistent p₀ s) (hf : s.Follows)
    (hsize : s.currentSize ≠ none) :
    (s.step (.read true)).Follows ↔ min (s.lastSize / 20) s.appended.length = s.seen := by
  obtain ⟨size, hs⟩ := Option.ne_none_iff_exists'.mp hsize
  have hiff := hf.resume_iff (s.lastSize / 20)
  rw [List.length_map] at hiff
  rw [← hiff, ← h.newCalls, ← following_all, List.length_map]
  simp only [Follows, Monitor.step, hs, if_true]

lemma Follows.step {s : Monitor} (hf : s.Follows) {st : MonitorStep}
    (hst : st = .read true → s.currentSize = none) : (s.step st).Follows := by
  cases st with
  | append command =>
    have happ := hf.append [command.call]
    simpa only [Follows, Monitor.step, List.map_append, List.map_singleton] using happ
  | metadata ok =>
    unfold Monitor.step
    dsimp only
    split
    · exact hf
    · exact hf
  | read ok =>
    unfold Monitor.step
    dsimp only
    split
    · exact hf
    · rename_i size hs
      split
      · rename_i hok
        rw [hst (by rw [hok])] at hs
        cases hs
      · exact hf
  | updateHealth addr status => exact hf

end Monitor

section Runs

variable {p₀ : UpfPool} {steps : List MonitorStep}

lemma ExactlyOnce.of_append {x y : List MonitorStep} (h : ExactlyOnce p₀ (x ++ y)) :
    ExactlyOnce p₀ x := by
  rintro x' y' rfl
  exact h x' (y' ++ y) (by rw [List.append_assoc])

lemma ResumesWhereLeft.of_append {x y : List MonitorStep} (h : ResumesWhereLeft p₀ (x ++ y)) :
    ResumesWhereLeft p₀ x := by
  rintro x' y' rfl
  exact h x' (y' ++ y) (by simp)

/-- In a run whose readings all resume where the last one has ended, the monitor follows the
file. -/
lemma ResumesWhereLeft.follows (h : ResumesWhereLeft p₀ steps) :
    (Monitor.after p₀ steps).Follows := by
  induction steps using List.reverseRecOn with
  | nil => exact following_nil
  | append_singleton steps st ih =>
    have hf := ih h.of_append
    rw [Monitor.after_snoc]
    by_cases hst : st = .read true → (Monitor.after p₀ steps).currentSize = none
    · exact hf.step hst
    · rw [Classical.not_imp] at hst
      obtain ⟨rfl, hsize⟩ := hst
      rw [(Monitor.consistent_after steps).follows_read_iff hf hsize]
      exact h steps [] rfl hsize

lemma Monitor.seenAll_read {s : Monitor} (hsize : s.currentSize ≠ none) :
    (s.step (.read true)).SeenAll := by
  obtain ⟨size, hs⟩ := Option.ne_none_iff_exists'.mp hsize
  simp [Monitor.step, hs, Monitor.SeenAll]

lemma ExactlyOnce.resumesWhereLeft (h : ExactlyOnce p₀ steps) : ResumesWhereLeft p₀ steps := by
  induction steps using List.reverseRecOn with
  | nil =>
    intro x y hxy
    simp at hxy
  | append_singleton steps st ih =>
    have hres := ih h.of_append
    intro x y hxy hsize
    rcases List.eq_nil_or_concat y with rfl | ⟨y', st', rfl⟩
    · obtain ⟨rfl, hst⟩ := List.append_inj' hxy rfl
      obtain rfl : st = .read true := by simpa using hst
      have hseen := Monitor.seenAll_read hsize
      rw [← Monitor.after_snoc] at hseen
      have hexact := h _ [] (List.append_nil _).symm hseen
      rw [(Monitor.consistent_after _).exact_iff hseen, Monitor.after_snoc,
        (Monitor.consistent_after _).follows_read_iff hres.follows hsize] at hexact
      exact hexact
    · rw [List.concat_eq_append, ← List.cons_append, ← List.append_assoc] at hxy
      exact hres x y' (List.append_inj' hxy rfl).1 hsize

/-- Control file commands are called exactly once and in order in the runs in which every tick
that reads the file resumes where the last reading has ended. -/
theorem control_file_exactly_once (p₀ : UpfPool) (steps : List MonitorStep) :
    ExactlyOnce p₀ steps ↔ ResumesWhereLeft p₀ steps := by
  constructor
  · exact ExactlyOnce.resumesWhereLeft
  · rintro h x y rfl hseen
    rw [(Monitor.consistent_after x).exact_iff hseen]
    exact h.of_append.follows

end Runs

/-- An addition whose line is 50 bytes long. -/
def addLong : Command :=
  ⟨.add, "[2001:db8:1111:2222:3333:4444:5555:6666]:8805".toList,
    .v6 0x20010db8111122223333444455556666 8805 0 0, by decide +kernel⟩

/-- An addition whose line is 18 bytes long. -/
def addShort : Command :=
  ⟨.add, "10.0.0.2:8805".toList, .v4 0x0a000002 8805, by decide +kernel⟩

/-- Of two additions, each with a tick after it, the second one is skipped. -/
def skippingSteps : List MonitorStep :=
  [.append addLong, .metadata true, .read true, .append addShort, .metadata true, .read true]

theorem control_file_exactly_once_fails :
    ¬ExactlyOnce (UpfPool.new [.v4 0x0a000001 8805] .roundRobin) skippingSteps := by
  intro h
  have hexact := h skippingSteps [] (List.append_nil _).symm (by decide +kernel)
  exact absurd (congrArg List.length hexact.1) (by decide +kernel)

end PfcpProxy
