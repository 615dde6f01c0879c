import PfcpProxy.Requests

/-!
# Starting, stopping and following services

What these operations do to the stage. An error while a service is started ends the loop, so that
starting is a function of the stage. Stopping a service and following its status ignore some
errors; what they do is described for rounds in which every I/O operation succeeds.
-/

namespace PfcpProxy.Manager

open Conditions

/-- The I/O operations that are left succeed. -/
def World.Calm (w : World) : Prop := false ∉ w.os.surroundings.outcomes

instance (w : World) : Decidable w.Calm :=
  inferInstanceAs (Decidable (false ∉ w.os.surroundings.outcomes))

/-- Nothing fails after `w` either, and the programs are still there. -/
def World.CalmSince (w w' : World) : Prop :=
  w'.Calm ∧ w'.os.surroundings.programs = w.os.surroundings.programs

def World.withOutcomes (outcomes : List Bool) (w : World) : World :=
  w.onOs fun os => { os with surroundings := { os.surroundings with outcomes := outcomes } }

/-! ### Starting -/

/-- After a service has been started, unless it is running. -/
def Stage.start (serviceIdx : ℕ) (stage : Stage) : Stage :=
  match stage.services[serviceIdx]? with
  | none => stage
  | some service =>
    if service.status = .running then stage
    else
      let pid := stage.pids stage.processes.length
      { stage with
        services := stage.services.modify serviceIdx fun s =>
          { s with status := .starting, pid := some pid }
        pidFiles := stage.pidFiles.insert service.name (some pid)
        processes := stage.processes ++
          [⟨pid, (serviceCommand service).1, (serviceCommand service).2, true⟩] }

lemma ensures_startService (i : ℕ) (w : World) :
    Ensures (startService i) (fun _ w' => w'.stage = w.stage.start i) (fun e _ => e ≠ .panic) w := by
  unfold startService
  simp only [ensures_bind, ensures_get]
  split
  next hnone =>
    rw [ensures_pure, Stage.start]
    simp only [World.stage, hnone]
  next service hsome =>
    rw [ensures_ite]
    split
    next hrunning =>
      have hstart : w.stage.start i = w.stage := by
        rw [Stage.start]
        simp only [World.stage, hsome, hrunning, if_true]
      rw [hstart]
      exact (quiet_setMessage _).ensures w
    next hidle =>
      rw [ensures_bind]
      refine ensures_attempt fun w₁ _ h₁ => ?_
      rw [ensures_bind]
      refine ensures_attempt fun w₂ _ h₂ => ?_
      rw [ensures_bind, ensures_get, ensures_bind]
      refine ensures_attempt fun w₃ _ h₃ => ?_
      rw [ensures_bind]
      refine ensures_attempt fun w₄ _ h₄ => ?_
      have hquiet : w₃.stage = w.stage := h₃.trans (h₂.trans h₁)
      have hpid : (w₂.onOs id).os.nextPid = w.stage.pids w.stage.processes.length :=
        congrArg (fun stage : Stage => stage.pids stage.processes.length) (h₂.trans h₁)
      have hspawn : w₄.stage = { w.stage with
          processes := w.stage.processes ++ [⟨w.stage.pids w.stage.processes.length,
            (serviceCommand service).1, (serviceCommand service).2, true⟩] } := by
        rw [h₄, ← hquiet]
        rfl
      have hstart : w.stage.start i = { w₄.stage with
          services := w₄.stage.services.modify i fun s =>
            { s with
              status := .starting
              pid := some (w.stage.pids w.stage.processes.length) }
          pidFiles := w₄.stage.pidFiles.insert service.name
            (some (w.stage.pids w.stage.processes.length)) } := by
        rw [Stage.start, show w.stage.services[i]? = some service from hsome]
        simp only [hidle, if_false, hspawn]
      unfold setMessage onApp
      rw [hpid, ensures_bind, ensures_modify, ensures_modify, hstart]
      rfl

lemma ensures_startServices (is : List ℕ) (w : World) :
    Ensures (is.forM startService)
      (fun _ w' => w'.stage = is.foldl (fun stage i => stage.start i) w.stage)
      (fun e _ => e ≠ .panic) w := by
  induction is generalizing w with
  | nil => rfl
  | cons i is ih =>
    change Ensures (startService i >>= fun _ => is.forM startService) _ _ w
    rw [ensures_bind]
    refine (ensures_startService i w).mono (fun _ w₁ h₁ => ?_) fun _ _ h => h
    rw [List.foldl_cons, ← h₁]
    exact ih w₁

/-- The programs that the services run have been built. -/
def World.HasPrograms (w : World) : Prop :=
  w.os.hasProgram "pfcp-proxy".toList ∧ w.os.hasProgram "test-upf".toList

instance (w : World) : Decidable w.HasPrograms :=
  inferInstanceAs (Decidable (w.os.hasProgram "pfcp-proxy".toList ∧
    w.os.hasProgram "test-upf".toList))

lemma ensures_startAll (w : World) :
    Ensures startAll
      (fun _ w' => w'.stage = if w.HasPrograms then
          [1, 2, 3, 0].foldl (fun stage i => stage.start i) w.stage
        else w.stage)
      (fun e _ => e ≠ .panic) w := by
  unfold startAll
  simp only [ensures_bind, ensures_get, ensures_ite]
  split
  next hprograms =>
    rw [if_pos (show w.HasPrograms from hprograms)]
    refine (ensures_startServices _ w).mono (fun _ w₁ h₁ => ?_) fun _ _ h => h
    rw [ensures_bind]
    refine (ensures_startService 0 w₁).mono (fun _ w₂ h₂ => ?_) fun _ _ h => h
    refine ((quiet_setMessage _).ensures w₂).mono (fun _ w₃ h₃ => ?_) fun _ _ h => h
    rw [h₃, h₂, h₁]
    rfl
  next hprograms =>
    rw [if_neg (show ¬w.HasPrograms from hprograms)]
    exact (quiet_setMessage _).ensures w

/-! ### Stopping -/

section Calm

variable {w : World} {E : Stop → World → Prop}

lemma ensures_outcome_calm (hw : w.Calm) {Q : Bool → World → Prop}
    (hQ : ∀ outcomes, (w.withOutcomes outcomes).Calm → Q true (w.withOutcomes outcomes)) :
    Ensures outcome Q E w := by
  unfold outcome
  rw [ensures_modifyGet]
  split
  next hnil =>
    have hsame : w.withOutcomes [] = w := by
      unfold World.withOutcomes World.onOs
      rw [← hnil]
    rw [← hsame]
    exact hQ [] List.not_mem_nil
  next ok outcomes hcons =>
    rw [World.Calm, hcons, List.mem_cons, not_or] at hw
    obtain rfl : ok = true := by simpa using hw.1
    exact hQ outcomes hw.2

lemma ensures_attempt_calm (hw : w.Calm) (f : Os → Os) {Q : Unit → World → Prop}
    (hQ : ∀ outcomes, (w.withOutcomes outcomes).Calm → Q () ((w.withOutcomes outcomes).onOs f)) :
    Ensures (attempt f) Q E w := by
  unfold attempt
  rw [ensures_bind]
  exact ensures_outcome_calm hw hQ

lemma ensures_tryTo_calm (hw : w.Calm) (f : Os → Os) {Q : Unit → World → Prop}
    (hQ : ∀ outcomes, (w.withOutcomes outcomes).Calm → Q () ((w.withOutcomes outcomes).onOs f)) :
    Ensures (tryTo f) Q E w := by
  unfold tryTo
  rw [ensures_bind]
  exact ensures_outcome_calm hw hQ

lemma ensures_processExists_calm (hw : w.Calm) (pid : Pid) {Q : Bool → World → Prop}
    (hQ : ∀ outcomes, (w.withOutcomes outcomes).Calm → Q (w.os.finds pid) (w.withOutcomes outcomes)) :
    Ensures (processExists pid) Q E w := by
  unfold processExists
  rw [ensures_bind]
  refine ensures_outcome_calm hw fun outcomes houtcomes => ?_
  rw [ensures_bind, ensures_get, ensures_pure, Bool.true_and]
  exact hQ outcomes houtcomes

end Calm

def Process.dead (p : Process) : Process := { p with alive := false }

/-- After these signals have ended a process. -/
def Stage.endProcess (pid : Pid) (sent : List (Pid × Bool)) (stage : Stage) : Stage :=
  { stage with
    processes := stage.processes.map fun p => if p.pid = pid then p.dead else p
    others := stage.others.filter fun other => other ≠ pid
    signals := stage.signals ++ sent }

/-- A process that is not found after the first signal has ended. -/
lemma stage_signal_of_not_found {pid : Pid} {w : World}
    (h : (w.os.signal pid false).finds pid = false) :
    (w.onOs (Os.signal pid false)).stage = w.stage.endProcess pid [(pid, false)] := by
  simp only [Os.finds, Bool.or_eq_false_iff] at h
  obtain ⟨hothers, hfound⟩ := h
  have hprocesses : (w.os.signal pid false).processes =
      w.os.processes.map fun p => if p.pid = pid then p.dead else p := by
    apply List.map_congr_left
    intro p hp
    split
    next hpid =>
      have halive := List.any_eq_false.mp hfound _ (List.mem_map_of_mem hp)
      simp only [hpid, if_true, decide_true, Bool.true_and, Bool.not_eq_true,
        Bool.or_eq_false_iff] at halive
      rw [halive.1]
      rfl
    next => rfl
  have hrest : (w.os.signal pid false).others = w.os.others.filter fun other => other ≠ pid := by
    simp only [List.contains_eq_mem, decide_eq_false_iff_not] at hothers
    apply List.filter_congr
    intro other hother
    by_cases hpid : other = pid
    · subst hpid
      by_contra hkept
      refine hothers (List.mem_filter.mpr ⟨hother, ?_⟩)
      simpa using hkept
    · simp [hpid]
  unfold World.stage World.onOs Stage.endProcess
  dsimp only
  rw [hprocesses, hrest]
  rfl

lemma stage_signal_twice (pid : Pid) (w : World) :
    ((w.onOs (Os.signal pid false)).onOs (Os.signal pid true)).stage =
      w.stage.endProcess pid [(pid, false), (pid, true)] := by
  have hprocesses : ((w.os.signal pid false).signal pid true).processes =
      w.os.processes.map fun p => if p.pid = pid then p.dead else p := by
    unfold Os.signal
    dsimp only
    rw [List.map_map]
    apply List.map_congr_left
    intro p _
    by_cases hpid : p.pid = pid
    · simp [hpid, Process.dead]
    · simp [hpid]
  have hrest : ((w.os.signal pid false).signal pid true).others =
      w.os.others.filter fun other => other ≠ pid := by
    unfold Os.signal
    dsimp only
    rw [List.filter_filter]
    apply List.filter_congr
    intro other _
    by_cases hpid : other = pid
    · simp [hpid]
    · simp [hpid]
  unfold World.stage World.onOs Stage.endProcess
  dsimp only
  rw [hprocesses, hrest]
  simp [Os.signal]

lemma ensures_endProcess {w : World} (hw : w.Calm) (pid : Pid) {E : Stop → World → Prop} :
    Ensures (endProcess pid)
      (fun _ w' => w'.app = w.app ∧ w.CalmSince w' ∧
        ∃ sent : List (Pid × Bool), (∀ signal ∈ sent, signal.1 = pid) ∧ (pid, false) ∈ sent ∧
          w'.stage = w.stage.endProcess pid sent) E w := by
  unfold endProcess killProcess
  rw [ensures_bind]
  refine ensures_attempt_calm hw _ fun _ hw₁ => ?_
  rw [ensures_bind]
  refine ensures_processExists_calm ?_ pid fun _ hw₂ => ?_
  · exact hw₁
  rw [ensures_ite]
  split
  · refine ensures_attempt_calm ?_ _ fun _ hw₃ => ?_
    · exact hw₂
    · exact ⟨rfl, ⟨hw₃, rfl⟩, [(pid, false), (pid, true)], by simp, by simp,
        stage_signal_twice pid w⟩
  next hfound =>
    exact ⟨rfl, ⟨hw₂, rfl⟩, [(pid, false)], by simp, by simp,
      stage_signal_of_not_found (w := w) (Bool.eq_false_iff.mpr hfound)⟩

/-- After a service has been stopped by these signals, if it was running. -/
def Stage.stop (serviceIdx : ℕ) (sent : List (Pid × Bool)) (stage : Stage) : Stage :=
  match stage.services[serviceIdx]? with
  | none => stage
  | some service =>
    if service.status = .running then
      match service.pid with
      | none => stage
      | some pid =>
        { stage.endProcess pid sent with
          services := stage.services.modify serviceIdx fun s =>
            { s with status := .stopped, pid := none }
          pidFiles := stage.pidFiles.remove service.name }
    else stage

/-- The signals went to the process of this service. -/
def Stage.SentTo (stage : Stage) (serviceIdx : ℕ) (sent : List (Pid × Bool)) : Prop :=
  ∀ signal ∈ sent, ∃ s, stage.services[serviceIdx]? = some s ∧ s.pid = some signal.1

/-- The process of this service got a signal, if the service was running. -/
def Stage.Reached (stage : Stage) (serviceIdx : ℕ) (sent : List (Pid × Bool)) : Prop :=
  ∀ s, stage.services[serviceIdx]? = some s → s.status = .running →
    ∀ pid, s.pid = some pid → (pid, false) ∈ sent

lemma ensures_stopService {w : World} (hw : w.Calm) (i : ℕ) {E : Stop → World → Prop} :
    Ensures (stopService i)
      (fun _ w' => w.CalmSince w' ∧
        ∃ sent, w.stage.SentTo i sent ∧ w.stage.Reached i sent ∧
          w'.stage = w.stage.stop i sent) E w := by
  unfold stopService
  simp only [ensures_bind, ensures_get]
  split
  next hnone =>
    have hservice : w.stage.services[i]? = none := hnone
    refine ⟨⟨hw, rfl⟩, [], by simp [Stage.SentTo], by simp [Stage.Reached, hservice], ?_⟩
    rw [Stage.stop, hservice]
  next service hsome =>
    have hservice : w.stage.services[i]? = some service := hsome
    rw [ensures_ite]
    split
    next hrunning =>
      split
      next hpid =>
        refine ⟨⟨hw, rfl⟩, [], by simp [Stage.SentTo], by simp [Stage.Reached, hservice, hpid], ?_⟩
        simp only [Stage.stop, hservice, hrunning, if_true, hpid]
      next pid hpid =>
        rw [ensures_bind]
        refine (ensures_endProcess hw pid (E := E)).mono (fun _ w₁ h₁ => ?_) fun _ _ h => h
        obtain ⟨happ, hsame, sent, hsent, hreached, hstage⟩ := h₁
        unfold onApp setMessage
        rw [ensures_bind, ensures_modify, ensures_bind]
        refine ensures_tryTo_calm (show (World.onApp _ w₁).Calm from hsame.1) _ fun _ hw₂ => ?_
        refine ⟨⟨hw₂, hsame.2⟩, sent, fun signal h => ⟨service, hservice, ?_⟩,
          fun s hs _ pid' hpid' => ?_, ?_⟩
        · rw [hpid, hsent signal h]
        · rw [hservice] at hs
          cases hs
          rw [hpid] at hpid'
          cases hpid'
          exact hreached
        · have hstop : w.stage.stop i sent = { w₁.stage with
              services := w₁.stage.services.modify i fun s =>
                { s with status := .stopped, pid := none }
              pidFiles := w₁.stage.pidFiles.remove service.name } := by
            rw [hstage]
            simp only [Stage.stop, hservice, hrunning, if_true, hpid]
            rfl
          rw [hstop]
          rfl
    next hidle =>
      refine ⟨⟨hw, rfl⟩, [], by simp [Stage.SentTo], by simp [Stage.Reached, hservice, hidle], ?_⟩
      simp only [Stage.stop, hservice, hidle, if_false]
      rfl

lemma stop_upfList (stage : Stage) (upfList : List (List Char)) (i : ℕ)
    (sent : List (Pid × Bool)) :
    { stage with upfList := upfList }.stop i sent =
      { stage.stop i sent with upfList := upfList } := by
  unfold Stage.stop
  dsimp only
  split
  · rfl
  split
  · split
    · rfl
    · rfl
  · rfl

lemma start_getElem? (stage : Stage) {i j : ℕ} (hij : i ≠ j) :
    (stage.start i).services[j]? = stage.services[j]? := by
  unfold Stage.start
  split
  · rfl
  split
  · rfl
  · dsimp only
    rw [List.getElem?_modify]
    simp [hij]

/-- Stopping a service leaves the others alone, and its own status unless that is running. -/
lemma stop_getElem? {stage : Stage} {i j : ℕ} {sent : List (Pid × Bool)} {t : ServiceInfo}
    (ht : (stage.stop i sent).services[j]? = some t) :
    stage.services[j]? = some t ∨ i = j ∧ t.status = .stopped ∧ t.pid = none := by
  unfold Stage.stop at ht
  split at ht
  next => exact .inl ht
  next s hi =>
    split at ht
    next hrunning =>
      split at ht
      next => exact .inl ht
      next pid hpid =>
        dsimp only at ht
        rw [List.getElem?_modify] at ht
        by_cases hij : i = j
        · subst hij
          rw [hi] at ht
          cases ht
          right
          simp
        · left
          simpa [hij] using ht
    next => exact .inl ht

lemma stop_signals (stage : Stage) (i : ℕ) (sent : List (Pid × Bool)) :
    (stage.stop i sent).upfList = stage.upfList ∧
      ((stage.stop i sent).signals = stage.signals ∨
        (stage.stop i sent).signals = stage.signals ++ sent) := by
  unfold Stage.stop
  split
  · exact ⟨rfl, .inl rfl⟩
  split
  · split
    · exact ⟨rfl, .inl rfl⟩
    · exact ⟨rfl, .inr rfl⟩
  · exact ⟨rfl, .inl rfl⟩

end PfcpProxy.Manager
